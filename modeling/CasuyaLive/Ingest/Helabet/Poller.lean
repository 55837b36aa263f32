/-
  CasuyaLive.Ingest.Helabet.Poller — the poll loop (data-ingestion-go,
  internal/helabet/poller.go: `tick`, `markSettled`, `safePublish`).

  A tick reads the board once (`none`: the fetch failed) and the clock once. Go ranges over
  the dropped matches in no fixed order; here they go in table order, and every property
  below is about one match at a time. The log lists the entries with an id and both team
  names.
-/

import CasuyaLive.Lib.Run
import CasuyaLive.Ingest.Sink
import CasuyaLive.Ingest.Helabet.Types

namespace CasuyaLive.Ingest.Helabet

open CasuyaLive.Lib CasuyaLive.Ingest.Stream

structure TrackedMatch where
  raw : RawMatch
  lastFrame : Match

structure Poller where
  active : Table String TrackedMatch
  settled : List String
  log : List (Obs RawMatch)

def new : Poller := ⟨Table.empty, [], []⟩

structure Tick where
  now : Int
  board : Option (List RawMatch)

def safePublish (sink : Sink RawMatch) (p : Poller) (m : Match) : Poller := { p with log := p.log ++ [.sent m (sink p.log m)] }

def markSettled (p : Poller) (matchID : String) (finished : Bool) : Poller :=
  { active := p.active.erase matchID
    settled := matchID :: p.settled
    log := p.log ++ [.stopped matchID finished] }

/-- One entry of the board. -/
def onEntry (sink : Sink RawMatch) (now : Int) (p : Poller) (raw : RawMatch) : Poller :=
  if !listed raw then p
  else
    let matchID := matchIDKey raw.id
    let p := { p with log := p.log ++ [.listed raw] }
    if matchID ∈ p.settled then p
    else
      match toMatch now raw with
      | none => p
      | some frame =>
        let p := { p with active := p.active.set matchID ⟨raw, frame⟩ }
        if isFullTime raw then markSettled (safePublish sink p (frame.settlement now)) matchID true
        else safePublish sink p frame

/-- A match that left the board counts as finished when its last entry said so, its clock
    was late, or its kickoff is more than 90 minutes old. -/
def finishedAtDrop (now : Int) (tm : TrackedMatch) : Bool :=
  isFullTime tm.raw || clockLateForDrop tm.raw ||
    (0 < tm.raw.startTs && 90 * minute < now - Calendar.timeUnix tm.raw.startTs * second)

def onDrop (sink : Sink RawMatch) (now : Int) (p : Poller) (x : String × TrackedMatch) : Poller :=
  if finishedAtDrop now x.2 then markSettled (safePublish sink p (x.2.lastFrame.settlement now)) x.1 true
  else markSettled p x.1 false

def seenOn (raws : List RawMatch) : List String := (raws.filter listed).map (matchIDKey ·.id)

/-- Take the matches the board no longer lists out of `active`. -/
def dropAbsent (sink : Sink RawMatch) (now : Int) (seen : List String) (p : Poller) : Poller :=
  (p.active.entries.filter fun x => !seen.contains x.1).foldl (onDrop sink now)
    { p with active := p.active.filter seen.contains }

def tick (sink : Sink RawMatch) (p : Poller) (t : Tick) : Poller :=
  match t.board with
  | none => p
  | some raws => dropAbsent sink t.now (seenOn raws) (raws.foldl (onEntry sink t.now) p)

def run (sink : Sink RawMatch) (ts : List Tick) : Poller := ts.foldl (tick sink) new

/-! ## Well-formed states -/

/-- A tracked match is not settled, and its frame is the projection of its entry. -/
structure WF (p : Poller) : Prop where
  unsettled : ∀ id tm, p.active.get? id = some tm → id ∉ p.settled
  shown : ∀ id tm, p.active.get? id = some tm → listed tm.raw = true
  key : ∀ id tm, p.active.get? id = some tm → matchIDKey tm.raw.id = id
  frame : ∀ id tm, p.active.get? id = some tm → ∃ now, toMatch now tm.raw = some tm.lastFrame

theorem WF.matchID {p : Poller} (h : WF p) {id : String} {tm : TrackedMatch} (ha : p.active.get? id = some tm) :
    tm.lastFrame.matchID = id := by
  obtain ⟨now, hf⟩ := h.frame id tm ha
  rw [(toMatch_spec hf).1]
  exact h.key id tm ha

theorem new_wf : WF new := by
  constructor <;> intro id tm h <;> simp [new] at h

theorem log_wf {p : Poller} (h : WF p) (l : List (Obs RawMatch)) : WF { p with log := l } := ⟨h.unsettled, h.shown, h.key, h.frame⟩

theorem markSettled_wf {p : Poller} (h : WF p) (id : String) (fin : Bool) : WF (markSettled p id fin) := by
  have old : ∀ {i tm}, (markSettled p id fin).active.get? i = some tm → i ≠ id ∧ p.active.get? i = some tm := by
    intro i tm hi
    simp only [markSettled, Table.get?_erase] at hi
    split at hi
    · cases hi
    · exact ⟨‹_›, hi⟩
  refine ⟨fun i tm hi => ?_, fun i tm hi => h.shown i tm (old hi).2, fun i tm hi => h.key i tm (old hi).2,
    fun i tm hi => h.frame i tm (old hi).2⟩
  obtain ⟨hne, hi⟩ := old hi
  simp only [markSettled, List.mem_cons, not_or]
  exact ⟨hne, h.unsettled i tm hi⟩

theorem track_wf {p : Poller} (h : WF p) {now : Int} {raw : RawMatch} {m : Match}
    (hl : listed raw = true) (hs : matchIDKey raw.id ∉ p.settled) (hm : toMatch now raw = some m) :
    WF { p with active := p.active.set (matchIDKey raw.id) ⟨raw, m⟩ } := by
  refine ⟨fun i tm hi => ?_, fun i tm hi => ?_, fun i tm hi => ?_, fun i tm hi => ?_⟩ <;>
    (simp only [Table.get?_set] at hi; split at hi)
  · rename_i e; rw [e]; exact hs
  · exact h.unsettled i tm hi
  · cases hi; exact hl
  · exact h.shown i tm hi
  · rename_i e; cases hi; exact e.symm
  · exact h.key i tm hi
  · cases hi; exact ⟨now, hm⟩
  · exact h.frame i tm hi

theorem onEntry_wf (sink : Sink RawMatch) (now : Int) {p : Poller} (h : WF p) (raw : RawMatch) : WF (onEntry sink now p raw) := by
  unfold onEntry
  split
  · exact h
  · rename_i hl
    simp only
    split
    · exact log_wf h _
    · rename_i hs
      cases hm : toMatch now raw with
      | none => exact log_wf h _
      | some frame =>
        have ht := track_wf (log_wf h _) (by simpa using hl) hs hm
        simp only
        split
        · exact markSettled_wf (log_wf ht _) _ _
        · exact log_wf ht _

theorem filter_wf {p : Poller} (h : WF p) (keep : String → Bool) : WF { p with active := p.active.filter keep } := by
  have old : ∀ {i tm}, (p.active.filter keep).get? i = some tm → p.active.get? i = some tm := by
    intro i tm hi
    rw [Table.get?_filter] at hi
    split at hi
    · exact hi
    · cases hi
  exact ⟨fun i tm hi => h.unsettled i tm (old hi), fun i tm hi => h.shown i tm (old hi),
    fun i tm hi => h.key i tm (old hi), fun i tm hi => h.frame i tm (old hi)⟩

theorem onDrop_wf (sink : Sink RawMatch) (now : Int) {p : Poller} (h : WF p) (x : String × TrackedMatch) :
    WF (onDrop sink now p x) := by
  unfold onDrop
  split
  · exact markSettled_wf (log_wf h _) _ _
  · exact markSettled_wf h _ _

theorem tick_wf (sink : Sink RawMatch) {p : Poller} (h : WF p) (t : Tick) : WF (tick sink p t) := by
  unfold tick
  split
  · exact h
  · exact fold_inv WF (fun q x hq => onDrop_wf sink t.now hq x) _
      (filter_wf (fold_inv WF (fun q raw hq => onEntry_wf sink t.now hq raw) _ h) _)

/-- Every state of every run is well formed. -/
theorem run_wf (sink : Sink RawMatch) (ts : List Tick) : WF (run sink ts) := fold_inv WF (fun _ t h => tick_wf sink h t) ts new_wf

end CasuyaLive.Ingest.Helabet
