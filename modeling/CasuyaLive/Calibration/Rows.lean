/-
  CasuyaLive.Calibration.Rows — the training rows of a frame history and their chronological
  split (analytics-engine-py, scripts/calibrate.py: `group_cycles`, `collect_rows`, `main`).

  A frame comes with its receive time and the kickoff as far as it can be read. `collected`:
  rows, labels and cycle sizes are those of the counted cycles, one after another, so a split
  between cycles divides none.

  A counted cycle may show no snapshot at all. `well_split_iff`: the training part has a row
  iff one of the cycles before the split has an observed frame. A cycle of boundary frames
  alone, before one other cycle, leaves nothing to fit (`boundary_frames_alone_train_nothing`).
-/

import CasuyaLive.Analytics.Replay
import CasuyaLive.Analytics.FilterEngine

namespace CasuyaLive.Calibration

open CasuyaLive.Lib CasuyaLive.Analytics

/-- The kickoff of a frame: seconds, or the text of an instant, or nothing to be read so. -/
inductive Kickoff where
  | seconds (n : Int)
  | instant (unix : Int)
  | unreadable
  deriving DecidableEq

/-- A frame of the history. -/
structure Payload extends Received where
  kickoff : Kickoff
  deriving DecidableEq

def Kickoff.unix : Kickoff → Int
  | .seconds n => n
  | .instant unix => unix
  | .unreadable => 0

def Payload.key (p : Payload) : String × Int := (p.frame.matchID.getD "None", p.kickoff.unix)

def addPayload (groups : Table (String × Int) (List Payload)) (p : Payload) : Table (String × Int) (List Payload) :=
  groups.set p.key ((groups.get? p.key).getD [] ++ [p])

/-- Frames by match and kickoff, in the order in which they first come. -/
def groupCycles (frames : List Payload) : List (List Payload) :=
  (frames.foldl addPayload Table.empty).entries.map (·.2)

def sideWon (side : String) (home away : Int) : Bool :=
  if side == "home" then away < home
  else if side == "away" then home < away
  else home == away

structure Report where
  cycles : ℕ
  frames : ℕ
  snapshots : ℕ
  deriving DecidableEq

structure Collection where
  X : List (List ℚ)
  y : List ℕ
  implied : List ℚ
  cycleSizes : List ℕ
  report : Report
  deriving DecidableEq

def Collection.empty : Collection := ⟨[], [], [], [], ⟨0, 0, 0⟩⟩

def labelOf (score : Int × Int) (side : String) : ℕ := if sideWon side score.1 score.2 then 1 else 0

/-- The market's own probability of a side; a missing price counts as an even chance. -/
def impliedOf (snap : MomentumFrame) (side : String) : ℚ :=
  let odds := (snap.odds.get? side).getD 0
  if odds = 0 then 1 / 2 else 1 / odds

/-- One row for a side of a snapshot. -/
def addSide (score : Int × Int) (snap : MomentumFrame) (c : Collection) (side : String) : Collection :=
  { c with
    X := c.X ++ [scoreInputs snap side]
    y := c.y ++ [labelOf score side]
    implied := c.implied ++ [impliedOf snap side]
    report := { c.report with snapshots := c.report.snapshots + 1 } }

def addSnapshot (score : Int × Int) (c : Collection) (snap : MomentumFrame) : Collection :=
  ["home", "away"].foldl (addSide score snap) c

/-- The report once a cycle counts. -/
def enter (c : Collection) (cycle : List Payload) : Collection :=
  { c with report := { c.report with cycles := c.report.cycles + 1, frames := c.report.frames + cycle.length } }

def cycleScore (cycle : List Payload) : Option (Int × Int) := finalScore (cycle.map (·.frame))

section

variable (cfg : Settings)

/-- The snapshots of a cycle in a study of its own. -/
def replayed (cycle : List Payload) : List MomentumFrame := outputs (refeed cfg) Study.fresh (cycle.map (·.toReceived))

def addCycle (c : Collection) (cycle : List Payload) : Collection :=
  match cycleScore cycle with
  | none => c
  | some score =>
    if cycle.length < 2 then c
    else
      let rows := (replayed cfg cycle).foldl (addSnapshot score) (enter c cycle)
      { rows with cycleSizes := rows.cycleSizes ++ [rows.X.length - c.X.length] }

def collectRows (cycles : List (List Payload)) : Collection := cycles.foldl (addCycle cfg) Collection.empty

/-- The number of cycles to train on: four fifths of them, at least one. -/
def splitCycles (c : Collection) : ℕ := max 1 (c.cycleSizes.length * 4 / 5)

def trainEnd (c : Collection) : ℕ := (c.cycleSizes.take (splitCycles c)).sum

/-! ## Counted cycles -/

/-- A cycle with a final score and more than one frame. -/
def counts (cycle : List Payload) : Bool := (cycleScore cycle).isSome && 2 ≤ cycle.length

/-- One value for each side of each snapshot. -/
def bySide {β : Type} (f : MomentumFrame → String → β) (snaps : List MomentumFrame) : List β :=
  snaps.flatMap fun snap => ["home", "away"].map (f snap)

def rowsOf (cycle : List Payload) : List (List ℚ) := bySide scoreInputs (replayed cfg cycle)

/-- The labels of a cycle, all of them by its final score. -/
def labelsOf (cycle : List Payload) : List ℕ :=
  bySide (fun _ => labelOf ((cycleScore cycle).getD (0, 0))) (replayed cfg cycle)

def impliedRows (cycle : List Payload) : List ℚ := bySide impliedOf (replayed cfg cycle)

theorem bySide_length {β : Type} (f : MomentumFrame → String → β) (snaps : List MomentumFrame) :
    (bySide f snaps).length = 2 * snaps.length := by
  induction snaps with
  | nil => rfl
  | cons snap snaps ih =>
    simp only [bySide, List.flatMap_cons, List.length_append, List.length_cons] at ih ⊢
    rw [ih]
    simp
    omega

theorem addSnapshots_eq (score : Int × Int) (snaps : List MomentumFrame) : ∀ c : Collection,
    (snaps.foldl (addSnapshot score) c).X = c.X ++ bySide scoreInputs snaps ∧
    (snaps.foldl (addSnapshot score) c).y = c.y ++ bySide (fun _ => labelOf score) snaps ∧
    (snaps.foldl (addSnapshot score) c).implied = c.implied ++ bySide impliedOf snaps ∧
    (snaps.foldl (addSnapshot score) c).cycleSizes = c.cycleSizes := by
  induction snaps with
  | nil =>
    intro c
    simp [bySide]
  | cons snap snaps ih =>
    intro c
    obtain ⟨hX, hy, himplied, hsizes⟩ := ih (addSnapshot score c snap)
    rw [List.foldl_cons, hX, hy, himplied, hsizes]
    simp [addSnapshot, addSide, bySide]

/-- What the collection holds of the cycles it has been through. -/
structure Holds (cycles : List (List Payload)) (c : Collection) : Prop where
  rows : c.X = cycles.flatMap (rowsOf cfg)
  labels : c.y = cycles.flatMap (labelsOf cfg)
  implied : c.implied = cycles.flatMap (impliedRows cfg)
  sizes : c.cycleSizes = cycles.map fun cycle => (rowsOf cfg cycle).length

variable {cfg}

theorem addCycle_out {c : Collection} {cycle : List Payload} (h : counts cycle = false) : addCycle cfg c cycle = c := by
  unfold addCycle
  cases hscore : cycleScore cycle with
  | none => rfl
  | some score =>
    have hshort : cycle.length < 2 := by simpa [counts, hscore] using h
    simp only [if_pos hshort]

theorem addCycle_holds {cycles : List (List Payload)} {c : Collection} (h : Holds cfg cycles c) {cycle : List Payload}
    (hcounts : counts cycle = true) : Holds cfg (cycles ++ [cycle]) (addCycle cfg c cycle) := by
  obtain ⟨hsome, hlong⟩ := Bool.and_eq_true_iff.mp hcounts
  obtain ⟨score, hscore⟩ := Option.isSome_iff_exists.mp hsome
  have hno : ¬ cycle.length < 2 := not_lt.mpr (of_decide_eq_true hlong)
  have hentered := addSnapshots_eq score (replayed cfg cycle) (enter c cycle)
  have hadd : addCycle cfg c cycle = { (replayed cfg cycle).foldl (addSnapshot score) (enter c cycle) with
      cycleSizes := ((replayed cfg cycle).foldl (addSnapshot score) (enter c cycle)).cycleSizes ++
        [((replayed cfg cycle).foldl (addSnapshot score) (enter c cycle)).X.length - c.X.length] } := by
    simp only [addCycle, hscore, if_neg hno]
  obtain ⟨hX, hy, himplied, hsizes⟩ := hentered
  have hlabels : labelsOf cfg cycle = bySide (fun _ => labelOf score) (replayed cfg cycle) := by
    simp only [labelsOf, hscore, Option.getD_some]
  rw [hadd]
  refine ⟨?_, ?_, ?_, ?_⟩
  · simp only [hX, List.flatMap_append, List.flatMap_singleton, ← h.rows]
    rfl
  · simp only [hy, List.flatMap_append, List.flatMap_singleton, ← h.labels, hlabels]
    rfl
  · simp only [himplied, List.flatMap_append, List.flatMap_singleton, ← h.implied]
    rfl
  · simp only [hX, hsizes, List.length_append, List.map_append, List.map_cons, List.map_nil, ← h.sizes]
    rw [show (enter c cycle).X = c.X from rfl, Nat.add_sub_cancel_left]
    rfl

/-- Rows, labels and sizes of the counted cycles, in their order. -/
theorem collected (cycles : List (List Payload)) : Holds cfg (cycles.filter counts) (collectRows cfg cycles) := by
  induction cycles using List.reverseRecOn with
  | nil => exact ⟨rfl, rfl, rfl, rfl⟩
  | append_singleton cycles cycle ih =>
    rw [collectRows, List.foldl_concat, List.filter_append]
    cases hcounts : counts cycle with
    | true =>
      rw [List.filter_cons_of_pos hcounts, List.filter_nil]
      exact addCycle_holds ih hcounts
    | false =>
      rw [List.filter_cons_of_neg (by simp [hcounts]), List.filter_nil, List.append_nil, addCycle_out hcounts]
      exact ih

/-! ## The split -/

theorem refeed_shows_iff (s : Study) (r : Received) : (refeed cfg s r).2 = [] ↔ r.frame.observed = none := by
  cases ho : r.frame.observed with
  | none => simp [refeed, observeMany_none cfg s ho]
  | some x =>
    obtain ⟨m, clock⟩ := x
    simp [refeed, observeMany_some cfg s ho, Frame.observed_markets ho]

/-- A cycle shows nothing iff none of its frames is observed. -/
theorem outputs_none_iff (rs : List Received) : ∀ s : Study,
    outputs (refeed cfg) s rs = [] ↔ ∀ r ∈ rs, r.frame.observed = none := by
  induction rs with
  | nil =>
    intro s
    simp
  | cons r rs ih =>
    intro s
    rw [outputs_cons, List.append_eq_nil_iff, refeed_shows_iff, ih, List.forall_mem_cons]

theorem rowsOf_none_iff (cycle : List Payload) : rowsOf cfg cycle = [] ↔ ∀ p ∈ cycle, p.frame.observed = none := by
  rw [← List.length_eq_zero_iff, rowsOf, bySide_length, Nat.mul_eq_zero, or_iff_right two_ne_zero, List.length_eq_zero_iff,
    replayed, outputs_none_iff, List.forall_mem_map]

/-- The counted cycles of a history, the first of them to train on. -/
def countedCycles (frames : List Payload) : List (List Payload) := (groupCycles frames).filter counts

def trainingCycles (frames : List Payload) : List (List Payload) :=
  (countedCycles frames).take (max 1 ((countedCycles frames).length * 4 / 5))

/-- The rows are those of the counted cycles, one after another and labelled by their scores,
    no cycle is divided, and there is something to fit. -/
structure WellSplit (cfg : Settings) (frames : List Payload) : Prop where
  labelled : (collectRows cfg (groupCycles frames)).y.length = (collectRows cfg (groupCycles frames)).X.length
  priced : (collectRows cfg (groupCycles frames)).implied.length = (collectRows cfg (groupCycles frames)).X.length
  summed : (collectRows cfg (groupCycles frames)).cycleSizes.sum = (collectRows cfg (groupCycles frames)).X.length
  contiguous : Holds cfg (countedCycles frames) (collectRows cfg (groupCycles frames))
  whole : ∃ training validation, countedCycles frames = training ++ validation ∧
    (collectRows cfg (groupCycles frames)).X.take (trainEnd (collectRows cfg (groupCycles frames))) =
      training.flatMap (rowsOf cfg) ∧
    (collectRows cfg (groupCycles frames)).X.drop (trainEnd (collectRows cfg (groupCycles frames))) =
      validation.flatMap (rowsOf cfg)
  trains : (collectRows cfg (groupCycles frames)).X.take (trainEnd (collectRows cfg (groupCycles frames))) ≠ []

theorem Holds.lengths {cycles : List (List Payload)} {c : Collection} (h : Holds cfg cycles c) :
    c.y.length = c.X.length ∧ c.implied.length = c.X.length ∧ c.cycleSizes.sum = c.X.length := by
  have hrows : ∀ cycle : List Payload, (labelsOf cfg cycle).length = (rowsOf cfg cycle).length ∧
      (impliedRows cfg cycle).length = (rowsOf cfg cycle).length := by
    intro cycle
    simp only [labelsOf, impliedRows, rowsOf, bySide_length, and_self]
  rw [h.rows, h.labels, h.implied, h.sizes, List.length_flatMap, List.length_flatMap, List.length_flatMap]
  simp only [hrows, and_self]

/-- The rows before the split are those of the cycles before it. -/
theorem Holds.split {cycles : List (List Payload)} {c : Collection} (h : Holds cfg cycles c) :
    c.X.take (trainEnd c) = (cycles.take (max 1 (cycles.length * 4 / 5))).flatMap (rowsOf cfg) ∧
      c.X.drop (trainEnd c) = (cycles.drop (max 1 (cycles.length * 4 / 5))).flatMap (rowsOf cfg) := by
  have hsizes : c.cycleSizes = (cycles.map (rowsOf cfg)).map List.length := by
    rw [h.sizes, List.map_map]
    rfl
  have hsplit : splitCycles c = max 1 (cycles.length * 4 / 5) := by
    rw [splitCycles, h.sizes, List.length_map]
  rw [trainEnd, hsplit, hsizes, h.rows, List.flatMap_def, List.take_sum_flatten, List.drop_sum_flatten, ← List.map_take,
    ← List.map_drop]
  exact ⟨rfl, rfl⟩

/-- All of it but the last holds of every history: the training part has a row iff one of the
    cycles before the split has an observed frame. -/
theorem well_split_iff (cfg : Settings) (frames : List Payload) :
    WellSplit cfg frames ↔ ∃ cycle ∈ trainingCycles frames, ∃ p ∈ cycle, p.frame.observed ≠ none := by
  have hheld : Holds cfg (countedCycles frames) (collectRows cfg (groupCycles frames)) := collected (groupCycles frames)
  obtain ⟨hlabels, himplied, hsum⟩ := hheld.lengths
  obtain ⟨htrain, hval⟩ := hheld.split
  have hrows : (collectRows cfg (groupCycles frames)).X.take (trainEnd (collectRows cfg (groupCycles frames))) ≠ [] ↔
      ∃ cycle ∈ trainingCycles frames, ∃ p ∈ cycle, p.frame.observed ≠ none := by
    rw [htrain, Ne, List.flatMap_eq_nil_iff]
    simp only [rowsOf_none_iff]
    push Not
    rfl
  constructor
  · intro h
    exact hrows.mp h.trains
  · intro h
    exact ⟨hlabels, himplied, hsum, hheld, ⟨_, _, (List.take_append_drop _ _).symm, htrain, hval⟩, hrows.mpr h⟩

end

/-! ## Boundary frames alone -/

/-- A frame of the match with one market, at this minute of a day. -/
def polled (m clock : String) (k : ℕ) : Payload :=
  { frame := { frameAt clock 3 with matchID := some m }, asof := 60 * k, kickoff := .seconds 0 }

/-- Half and full time of m1, then ten minutes and full time of m2. -/
def twoMatches : List Payload :=
  [polled "m1" "HALFTIME" 0, polled "m1" "FULLTIME" 1] ++
    ((List.range 10).map fun (k : ℕ) => polled "m2" (Text.itoa k ++ "'") (2 + k)) ++ [polled "m2" "FULLTIME" 12]

theorem boundary_frames_alone_train_nothing : ¬ ∀ (cfg : Settings) (frames : List Payload),
    20 ≤ (collectRows cfg (groupCycles frames)).X.length → WellSplit cfg frames := by
  intro h
  have htwenty : (collectRows Settings.default (groupCycles twoMatches)).X.length = 20 := by decide +kernel
  have hempty : (collectRows Settings.default (groupCycles twoMatches)).X.take
      (trainEnd (collectRows Settings.default (groupCycles twoMatches))) = [] := by decide +kernel
  exact (h Settings.default twoMatches (by rw [htwenty])).trains hempty

end CasuyaLive.Calibration
