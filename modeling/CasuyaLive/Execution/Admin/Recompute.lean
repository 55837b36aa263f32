/-
  CasuyaLive.Execution.Admin.Recompute — the admin cleanups of the settlement ledger beside
  the paper broker (execution-engine-go, internal/api/server.go: `adminPruneUnresolved`,
  `adminRegradeDraws`).

  A task is one settlement batch (`persistSession`, then its XADDs) or one request. A
  schedule lists whose turn it is; each turn is one Redis command (a transaction is one),
  all of them succeeding. An XADD may trim the stream down to its limit, never below; the
  schedule says how many entries go.

  A request overwrites the PnL hash with the totals of a ledger it read one command before,
  and a batch updates the hash before the ledger. `account`: the totals of the ledger and of
  the entries that credited batches still owe it. `drift_settle`: a batch moves the hash and
  the account alike. `recompute_keeps_iff`: when all is done the hash equals the ledger iff
  the last request to overwrite it wrote the account as it then was. A batch between the
  last read and the overwrite is lost (`a_recompute_forgets_a_settlement`).
-/

import CasuyaLive.Lib.History
import CasuyaLive.Lib.Run
import CasuyaLive.Execution.Paper.Store

namespace CasuyaLive.Execution.Admin

open CasuyaLive.Lib CasuyaLive.Execution.Paper

/-- The trim limit of the ledger stream. -/
def maxLen : Nat := 1000

/-- How many entries an XRANGE asks for. -/
def rangeCount : Nat := 5000

def entriesTotals (es : List Entry) : Totals := settlementTotals (es.map (·.toSettledOrder))

/-- What a request writes for what it read: the net rounded to the cent. -/
def recomputed (es : List Entry) : Totals := { entriesTotals es with net := cents (entriesTotals es).net }

inductive Request where
  | pruneUnresolved
  | regradeDraws
  deriving DecidableEq

/-- A void home or away bet on a match that ended level. -/
def regradable (e : Entry) : Bool :=
  e.result == .void && (e.side == "home" || e.side == "away") && e.scoreHome.eq e.scoreAway

def regraded (e : Entry) : Entry := { e with result := .lost, pnl := -e.stake, source := "regrade-draws" }

/-- The entries a request deletes. -/
def picked (r : Request) (e : Entry) : Bool :=
  match r with
  | .pruneUnresolved => e.result == .unresolved
  | .regradeDraws => regradable e

/-- The entries it appends in their place. -/
def again (r : Request) (es : List Entry) : List Entry :=
  match r with
  | .pruneUnresolved => []
  | .regradeDraws => es.map regraded

inductive Task where
  /-- A batch before its transaction. -/
  | persist (b : Batch) (now : Int)
  | adds (rest : List Entry)
  /-- A request before its first XRANGE. -/
  | read (r : Request)
  | del (ids : List Nat) (readds : List Entry)
  | readd (readds : List Entry)
  | reread
  | write (t : Totals)
  | done

structure Sys where
  /-- The stream, with the entries' ids. -/
  ledger : List (Nat × Entry)
  nextID : Nat
  hash : Totals
  tasks : List Task

def entries (s : Sys) : List Entry := s.ledger.map (·.2)

inductive Job where
  | settle (b : Batch) (now : Int)
  | request (r : Request)

def Job.task : Job → Task
  | .settle b now => .persist b now
  | .request r => .read r

/-- The ledger and the hash equal, and every task still to come. -/
def start (ledger : List (Nat × Entry)) (nextID : Nat) (jobs : List Job) : Sys :=
  ⟨ledger, nextID, entriesTotals (ledger.map (·.2)), jobs.map Job.task⟩

structure Turn where
  task : Nat
  trim : Nat

def xadd (s : Sys) (trim : Nat) (e : Entry) : Sys :=
  let l := s.ledger ++ [(s.nextID, e)]
  { s with ledger := l.drop (min trim (l.length - maxLen)), nextID := s.nextID + 1 }

def setTask (s : Sys) (i : Nat) (t : Task) : Sys := { s with tasks := s.tasks.set i t }

def stepTask (s : Sys) (a : Turn) : Task → Sys
  | .persist b now => setTask { s with hash := s.hash + b.totals } a.task (.adds (b.entries now))
  | .adds [] => s
  | .adds (e :: rest) => setTask (xadd s a.trim e) a.task (.adds rest)
  | .read r =>
    let hits := (s.ledger.take rangeCount).filter fun x => picked r x.2
    setTask s a.task (if hits.isEmpty then .reread else .del (hits.map (·.1)) (again r (hits.map (·.2))))
  | .del ids readds =>
    setTask { s with ledger := s.ledger.filter fun x => !ids.contains x.1 } a.task
      (if readds.isEmpty then .reread else .readd readds)
  | .readd [] => setTask s a.task .reread
  | .readd (e :: rest) => setTask (xadd s a.trim e) a.task (if rest.isEmpty then .reread else .readd rest)
  | .reread => setTask s a.task (.write (recomputed ((s.ledger.take rangeCount).map (·.2))))
  | .write t => setTask { s with hash := t } a.task .done
  | .done => s

def step (s : Sys) (a : Turn) : Sys :=
  match s.tasks[a.task]? with
  | none => s
  | some t => stepTask s a t

def run (s : Sys) (as : List Turn) : Sys := as.foldl step s

def Task.finished : Task → Bool
  | .adds [] => true
  | .done => true
  | .persist _ _ => false
  | .adds (_ :: _) => false
  | .read _ => false
  | .del _ _ => false
  | .readd _ => false
  | .reread => false
  | .write _ => false

def finished (s : Sys) : Bool := s.tasks.all Task.finished

/-! ## The account -/

/-- What a task has added to the hash and not yet to the ledger. -/
def owed : Task → Totals
  | .adds rest => entriesTotals rest
  | .persist _ _ => 0
  | .read _ => 0
  | .del _ _ => 0
  | .readd _ => 0
  | .reread => 0
  | .write _ => 0
  | .done => 0

def account (s : Sys) : Totals := entriesTotals (entries s) + (s.tasks.map owed).sum

def drift (s : Sys) : Totals := s.hash - account s

theorem entriesTotals_append (a b : List Entry) : entriesTotals (a ++ b) = entriesTotals a + entriesTotals b := by
  simp [entriesTotals]

theorem batch_totals (b : Batch) (now : Int) : entriesTotals (b.entries now) = b.totals := by
  simp only [entriesTotals, Batch.entries, List.map_map, Batch.totals]
  congr 1
  exact List.map_id' b.settled

theorem owed_set (l : List Task) {i : Nat} {t : Task} (h : l[i]? = some t) (t' : Task) :
    ((l.set i t').map owed).sum = (l.map owed).sum + (owed t' - owed t) := by
  obtain ⟨hi, rfl⟩ := List.getElem?_eq_some_iff.mp h
  rw [List.map_set, List.sum_set']
  simp only [List.length_map, hi, dite_true, List.getElem_map]
  abel

theorem setTask_account (s : Sys) {i : Nat} {t : Task} (h : s.tasks[i]? = some t) (t' : Task) :
    account (setTask s i t') = account s + (owed t' - owed t) := by
  have hsum := owed_set s.tasks h t'
  simp only [account, entries, setTask, hsum, add_assoc]

theorem xadd_entries (s : Sys) (trim : Nat) (e : Entry) (h : s.ledger.length < maxLen) :
    entries (xadd s trim e) = entries s ++ [e] := by
  have hkeep : min trim ((s.ledger ++ [(s.nextID, e)]).length - maxLen) = 0 := by
    simp only [List.length_append, List.length_singleton]
    omega
  simp only [entries, xadd, hkeep, List.drop_zero, List.map_append, List.map_cons, List.map_nil]

/-! ## Steps -/

/-- A request that has not overwritten the hash yet. -/
def Task.openRequest : Task → Bool
  | .read _ => true
  | .del _ _ => true
  | .readd _ => true
  | .reread => true
  | .write _ => true
  | .persist _ _ => false
  | .adds _ => false
  | .done => false

/-- The totals the turn is about to write over the hash. -/
def overwrites (s : Sys) (a : Turn) : Option Totals :=
  match s.tasks[a.task]? with
  | some (.write t) => some t
  | _ => none

/-- The ledger is below its trim limit. -/
def Untrimmed (s : Sys) (_ : Turn) : Prop := s.ledger.length < maxLen

instance (s : Sys) (a : Turn) : Decidable (Untrimmed s a) := inferInstanceAs (Decidable (_ < _))

def NoOpenRequest (s : Sys) : Prop := ∀ t ∈ s.tasks, t.openRequest = false

theorem step_none {s : Sys} {a : Turn} (h : s.tasks[a.task]? = none) : step s a = s := by simp only [step, h]

theorem step_some {s : Sys} {a : Turn} {t : Task} (h : s.tasks[a.task]? = some t) : step s a = stepTask s a t := by
  simp only [step, h]

/-- A turn changes its own task, and keeps a request open unless it overwrites the hash. -/
theorem stepTask_tasks (s : Sys) (a : Turn) (t : Task) : ∃ t', (stepTask s a t).tasks = s.tasks.set a.task t' ∧
    (t.openRequest = false → t'.openRequest = false) ∧ (t.openRequest = true → (∀ w, t ≠ .write w) → t'.openRequest = true) ∨
    (stepTask s a t).tasks = s.tasks ∧ t.openRequest = false := by
  cases t with
  | persist b now => exact ⟨.adds (b.entries now), Or.inl ⟨rfl, fun _ => rfl, nofun⟩⟩
  | adds rest =>
    cases rest with
    | nil => exact ⟨.done, Or.inr ⟨rfl, rfl⟩⟩
    | cons e rest => exact ⟨.adds rest, Or.inl ⟨rfl, fun _ => rfl, nofun⟩⟩
  | read r =>
    refine ⟨_, Or.inl ⟨rfl, nofun, fun _ _ => ?_⟩⟩
    split <;> rfl
  | del ids readds =>
    refine ⟨_, Or.inl ⟨rfl, nofun, fun _ _ => ?_⟩⟩
    split <;> rfl
  | readd readds =>
    cases readds with
    | nil => exact ⟨.reread, Or.inl ⟨rfl, nofun, fun _ _ => rfl⟩⟩
    | cons e rest =>
      refine ⟨_, Or.inl ⟨rfl, nofun, fun _ _ => ?_⟩⟩
      split <;> rfl
  | reread => exact ⟨_, Or.inl ⟨rfl, nofun, fun _ _ => rfl⟩⟩
  | write w => exact ⟨.done, Or.inl ⟨rfl, fun _ => rfl, fun _ h => absurd rfl (h w)⟩⟩
  | done => exact ⟨.done, Or.inr ⟨rfl, rfl⟩⟩

theorem noOpen_step {s : Sys} (h : NoOpenRequest s) (a : Turn) : NoOpenRequest (step s a) := by
  cases ha : s.tasks[a.task]? with
  | none => rwa [step_none ha]
  | some t =>
    have ht : t.openRequest = false := h t (List.mem_of_getElem? ha)
    rw [step_some ha]
    intro u hu
    obtain ⟨t', ⟨he, hclosed, -⟩ | ⟨he, -⟩⟩ := stepTask_tasks s a t
    · rw [he] at hu
      rcases List.mem_or_eq_of_mem_set hu with hu | rfl
      · exact h u hu
      · exact hclosed ht
    · rw [he] at hu
      exact h u hu

theorem open_stays {s : Sys} {i : Nat} {t : Task} (hi : s.tasks[i]? = some t) (ho : t.openRequest = true) {a : Turn}
    (hw : overwrites s a = none) : ∃ u, (step s a).tasks[i]? = some u ∧ u.openRequest = true := by
  cases ha : s.tasks[a.task]? with
  | none =>
    rw [step_none ha]
    exact ⟨t, hi, ho⟩
  | some v =>
    have hne : ∀ w, v ≠ .write w := by
      intro w hw
      subst hw
      simp [overwrites, ha] at hw
    rw [step_some ha]
    obtain ⟨t', ⟨he, -, hopen⟩ | ⟨he, -⟩⟩ := stepTask_tasks s a v
    · rw [he]
      by_cases hia : a.task = i
      · subst hia
        rw [hi] at ha
        cases ha
        refine ⟨t', ?_, hopen ho hne⟩
        rw [List.getElem?_set_self (List.getElem?_eq_some_iff.mp hi).1]
      · exact ⟨t, by rw [List.getElem?_set_ne hia]; exact hi, ho⟩
    · rw [he]
      exact ⟨t, hi, ho⟩

/-- A schedule that finishes everything without another overwrite has no request left. -/
theorem no_open_of_finished {as : List Turn} : ∀ {s : Sys}, Each (fun pre a => ¬ (overwrites (run s pre) a).isSome) as →
    finished (run s as) = true → NoOpenRequest s := by
  induction as with
  | nil =>
    intro s _ hf t ht
    have := List.all_eq_true.mp hf t ht
    cases t with
    | adds rest => rfl
    | done => rfl
    | _ => cases this
  | cons a as ih =>
    intro s h hf
    rw [each_cons] at h
    have hrest := ih (s := step s a) h.2 hf
    have hw : overwrites s a = none := by simpa [run] using h.1
    intro t ht
    obtain ⟨i, hi⟩ := List.mem_iff_getElem?.mp ht
    by_contra ho
    simp only [Bool.not_eq_false] at ho
    obtain ⟨u, hu, hopen⟩ := open_stays hi ho hw
    rw [hrest u (List.mem_of_getElem? hu)] at hopen
    cases hopen

/-- A settlement step moves the hash and the account alike. -/
theorem drift_settle {s : Sys} {a : Turn} (hn : NoOpenRequest s) (hu : Untrimmed s a) : drift (step s a) = drift s := by
  unfold Untrimmed at hu
  cases ha : s.tasks[a.task]? with
  | none => rw [step_none ha]
  | some t =>
    have ht : t.openRequest = false := hn t (List.mem_of_getElem? ha)
    rw [step_some ha]
    cases t with
    | persist b now =>
      have hacc := setTask_account { s with hash := s.hash + b.totals } ha (.adds (b.entries now))
      have hsame : account { s with hash := s.hash + b.totals } = account s := rfl
      simp only [stepTask, drift, hacc, hsame, owed, batch_totals]
      simp only [setTask]
      abel
    | adds rest =>
      cases rest with
      | nil => rfl
      | cons e rest =>
        have hent := xadd_entries s a.trim e hu
        have hacc := setTask_account (xadd s a.trim e) (i := a.task) ha (.adds rest)
        have hadd : account (xadd s a.trim e) = account s + entriesTotals [e] := by
          simp only [account, hent, entriesTotals_append]
          have : (xadd s a.trim e).tasks = s.tasks := rfl
          rw [this]
          abel
        have hcons : entriesTotals (e :: rest) = entriesTotals [e] + entriesTotals rest := entriesTotals_append [e] rest
        have hhash : (setTask (xadd s a.trim e) a.task (.adds rest)).hash = s.hash := rfl
        simp only [stepTask, drift, hacc, hadd, owed, hcons, hhash]
        abel
    | done => rfl
    | _ => cases ht

theorem drift_overwrite {s : Sys} {a : Turn} {t : Totals} (h : overwrites s a = some t) : drift (step s a) = t - account s := by
  unfold overwrites at h
  split at h
  · rename_i w ha
    simp only [Option.some.injEq] at h
    subst h
    have hacc := setTask_account { s with hash := w } ha .done
    have hsame : account { s with hash := w } = account s := rfl
    rw [step_some ha]
    simp only [stepTask, drift, hacc, hsame, owed]
    simp [setTask]
  · cases h

/-! ## Runs -/

theorem drift_run {as : List Turn} : ∀ {s : Sys}, NoOpenRequest s → Meets step Untrimmed s as → drift (run s as) = drift s := by
  induction as with
  | nil => intro s _ _; rfl
  | cons a as ih =>
    intro s hn hm
    rw [run, List.foldl_cons, ← run, ih (noOpen_step hn a) hm.2, drift_settle hn hm.1]

theorem finished_owes_nothing {s : Sys} (h : finished s = true) : (s.tasks.map owed).sum = 0 := by
  rw [List.sum_eq_zero]
  intro t ht
  obtain ⟨u, hu, rfl⟩ := List.mem_map.mp ht
  have := List.all_eq_true.mp h u hu
  cases u with
  | adds rest =>
    cases rest with
    | nil => rfl
    | cons e rest => cases this
  | _ => rfl

theorem start_drift (ledger : List (Nat × Entry)) (nextID : Nat) (jobs : List Job) : drift (start ledger nextID jobs) = 0 := by
  have howed : ((start ledger nextID jobs).tasks.map owed).sum = 0 := by
    rw [List.sum_eq_zero]
    intro t ht
    simp only [start, List.map_map, List.mem_map] at ht
    obtain ⟨j, -, rfl⟩ := ht
    cases j <;> rfl
  rw [drift, account, howed, add_zero]
  exact sub_self _

/-- The hash equals the totals of the ledger. -/
def Balanced (s : Sys) : Prop := s.hash = entriesTotals (entries s)

instance (s : Sys) : Decidable (Balanced s) := inferInstanceAs (Decidable (_ = _))

theorem balanced_iff {s : Sys} (h : finished s = true) : Balanced s ↔ drift s = 0 := by
  rw [drift, account, finished_owes_nothing h, add_zero, sub_eq_zero]
  rfl

/-- The last turn of the schedule that overwrites the hash, if there is one, writes the
    account as it is at that moment. -/
def LastOverwriteCurrent (s : Sys) (as : List Turn) : Prop :=
  ∀ pre a post, as = pre ++ a :: post → Each (fun mid b => ¬ (overwrites (run s (pre ++ a :: mid)) b).isSome) post →
    ∀ t, overwrites (run s pre) a = some t → t = account (run s pre)

/-- When every task is done, the hash equals the ledger again iff the last request to
    overwrite it wrote the account as it was. -/
theorem recompute_keeps_iff (ledger : List (Nat × Entry)) (nextID : Nat) (jobs : List Job) (as : List Turn)
    (hsmall : Meets step Untrimmed (start ledger nextID jobs) as) (hdone : finished (run (start ledger nextID jobs) as) = true) :
    Balanced (run (start ledger nextID jobs) as) ↔ LastOverwriteCurrent (start ledger nextID jobs) as := by
  have hlast : ∀ pre a post t, as = pre ++ a :: post →
      Each (fun mid b => ¬ (overwrites (run (start ledger nextID jobs) (pre ++ a :: mid)) b).isSome) post →
      overwrites (run (start ledger nextID jobs) pre) a = some t →
      (Balanced (run (start ledger nextID jobs) as) ↔ t = account (run (start ledger nextID jobs) pre)) := by
    intro pre a post t has hpost ht
    subst has
    have hsplit : ∀ mid, run (start ledger nextID jobs) (pre ++ a :: mid) =
        run (step (run (start ledger nextID jobs) pre) a) mid := by
      intro mid
      rw [run, List.foldl_append, List.foldl_cons]
      rfl
    have hn : NoOpenRequest (step (run (start ledger nextID jobs) pre) a) := by
      simp only [hsplit] at hpost hdone
      exact no_open_of_finished hpost hdone
    have hm := (meets_append.mp hsmall).2.2
    rw [balanced_iff hdone, hsplit, drift_run hn hm, drift_overwrite ht, sub_eq_zero]
  constructor
  · intro hb pre a post he hpost t ht
    exact (hlast pre a post t he hpost ht).mp hb
  · intro hc
    rcases last_or_none (fun pre a => (overwrites (run (start ledger nextID jobs) pre) a).isSome = true) as with
      hnone | ⟨pre, a, post, he, hsome, hpost⟩
    · have hn := no_open_of_finished hnone hdone
      rw [balanced_iff hdone, drift_run hn hsmall]
      exact start_drift ledger nextID jobs
    · obtain ⟨t, ht⟩ := Option.isSome_iff_exists.mp hsome
      exact (hlast pre a post t he hpost ht).mpr (hc pre a post he hpost t ht)

/-- A bet of 10 at 2.0 that lost, and a home bet of 5 at 3.0 that won. -/
def lostBet : SettledOrder := ⟨⟨"paper_1", "1x2", "away", 2, 10⟩, .lost, -10, "feed_ft", true⟩
def wonBet : SettledOrder := ⟨⟨"paper_2", "1x2", "home", 3, 5⟩, .won, 10, "feed_ft", true⟩

def oneWin : Batch := ⟨"m1", 1, 0, [wonBet], ["paper_2"]⟩

def oneLoss : List (Nat × Entry) := [(1, { lostBet with matchID := "m0", scoreHome := 1, scoreAway := 0, settledAt := 0 })]

/-- A settlement and a prune, one after the other. -/
theorem prune_after_a_settlement_keeps :
    let jobs := [Job.settle oneWin 0, Job.request .pruneUnresolved]
    let as := [⟨0, 0⟩, ⟨0, 0⟩, ⟨1, 0⟩, ⟨1, 0⟩, ⟨1, 0⟩]
    Balanced (run (start oneLoss 2 jobs) as) ↔ LastOverwriteCurrent (start oneLoss 2 jobs) as :=
  recompute_keeps_iff oneLoss 2 _ _ (by decide +kernel) (by decide +kernel)

/-- The whole batch falls between the second XRANGE of a prune and its overwrite. -/
def betweenReadAndWrite : List Turn := [⟨1, 0⟩, ⟨1, 0⟩, ⟨0, 0⟩, ⟨0, 0⟩, ⟨1, 0⟩]

theorem a_recompute_forgets_a_settlement :
    let s := start oneLoss 2 [.settle oneWin 0, .request .pruneUnresolved]
    Balanced s ∧ Meets step Untrimmed s betweenReadAndWrite ∧ finished (run s betweenReadAndWrite) = true ∧
      ¬ Balanced (run s betweenReadAndWrite) := by
  decide +kernel

end CasuyaLive.Execution.Admin
