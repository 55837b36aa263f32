/-
  CasuyaLive.Ingest.Helabet.Bookkeeping — what the poll loop keeps of its matches over any
  run (data-ingestion-go, internal/helabet/poller.go: `tick`, `markSettled`).

  Boards may repeat entries and list invalid ones or other sports, fetches and publishes may
  fail. A match is settled exactly when the log has it stopped (`settled_iff_stopped`), and
  the machine of one match says nothing but `listed` from then on (`outputs_silent`).
  `bookkeeping` puts these together for every state a run reaches.
-/

import CasuyaLive.Ingest.Helabet.Track

namespace CasuyaLive.Ingest.Helabet

open CasuyaLive.Lib CasuyaLive.Ingest.Stream

/-! ## One match -/

/-- A frame that follows no stop. -/
def Silent (pre : List Note) (n : Note) : Prop := ∀ m, n = .sent m → ∀ fin, Note.stopped fin ∉ pre

theorem seeEntry_stops {ph : Phase} (hph : ph ≠ .settled) (now : Int) (raw : RawMatch) :
    (seeEntry ph now raw).1 = .settled ↔ ∃ fin, Note.stopped fin ∈ (seeEntry ph now raw).2 := by
  unfold seeEntry
  cases toMatch now raw with
  | none => simp [hph]
  | some frame =>
    simp only
    split <;> simp

/-- A match becomes settled by a stop. -/
theorem see_stops (ph : Phase) (e : Sight) :
    (see ph e).1 = .settled ↔ ph = .settled ∨ ∃ fin, Note.stopped fin ∈ (see ph e).2 := by
  cases ph with
  | settled => cases e <;> simp [see]
  | idle =>
    cases e with
    | entry now raw =>
      have hidle : Phase.idle ≠ .settled := by simp
      simpa [see] using seeEntry_stops hidle now raw
    | absent now => simp [see]
  | tracked tm =>
    cases e with
    | entry now raw =>
      have htracked : Phase.tracked tm ≠ .settled := by simp
      simpa [see] using seeEntry_stops htracked now raw
    | absent now =>
      simp only [see, dropNotes]
      split <;> simp

/-- What one sight says ends with the stop. -/
theorem see_silent (ph : Phase) (e : Sight) : Each Silent (see ph e).2 := by
  have hentry : ∀ now raw, Each Silent (seeEntry ph now raw).2 := by
    intro now raw
    unfold seeEntry
    cases toMatch now raw with
    | none => simp [each_cons, Silent]
    | some frame =>
      simp only
      split <;> simp [each_cons, Silent]
  cases ph with
  | settled => cases e <;> simp [see, each_cons, Silent]
  | idle =>
    cases e with
    | entry now raw => exact hentry now raw
    | absent now => simp [see]
  | tracked tm =>
    cases e with
    | entry now raw => exact hentry now raw
    | absent now =>
      simp only [see, dropNotes]
      split <;> simp [each_cons, Silent]

theorem outputs_settled (es : List Sight) : ∀ n ∈ outputs see .settled es, ∃ raw, n = .listed raw := by
  induction es with
  | nil => simp
  | cons e es ih =>
    intro n hn
    cases e with
    | entry now raw =>
      rw [outputs_cons] at hn
      rcases List.mem_append.mp hn with hn | hn
      · exact ⟨raw, List.mem_singleton.mp hn⟩
      · exact ih n hn
    | absent now => exact ih n hn

/-- No frame follows a stop, however long the match is looked at. -/
theorem outputs_silent (es : List Sight) (ph : Phase) : Each Silent (outputs see ph es) := by
  induction es generalizing ph with
  | nil => simp
  | cons e es ih =>
    rw [outputs_cons, each_append]
    refine ⟨see_silent ph e, ?_⟩
    by_cases hs : (see ph e).1 = .settled
    · rw [hs]
      intro pre n post hsplit m hm
      obtain ⟨raw, hraw⟩ := outputs_settled es n (by rw [hsplit]; simp)
      rw [hraw] at hm
      cases hm
    · have hno : ∀ fin, Note.stopped fin ∉ (see ph e).2 := by
        intro fin hmem
        exact hs ((see_stops ph e).mpr (Or.inr ⟨fin, hmem⟩))
      refine (ih (see ph e).1).mono fun pre n _ h m hm fin hmem => ?_
      rcases List.mem_append.mp hmem with hmem | hmem
      · exact hno fin hmem
      · exact h m hm fin hmem

theorem after_settled_iff (es : List Sight) (ph : Phase) :
    after see ph es = .settled ↔ ph = .settled ∨ ∃ fin, Note.stopped fin ∈ outputs see ph es := by
  induction es generalizing ph with
  | nil => simp
  | cons e es ih =>
    rw [after_cons, ih, see_stops, or_assoc, outputs_cons]
    simp only [List.mem_append, exists_or]

/-! ## Runs -/

theorem phase_settled_iff (p : Poller) (id : String) : phase p id = .settled ↔ id ∈ p.settled := by
  constructor
  · intro h
    by_contra hs
    unfold phase at h
    rw [if_neg hs] at h
    split at h <;> cases h
  · exact phase_settled

theorem stopped_notes (id : String) (log : List (Obs RawMatch)) (fin : Bool) :
    Note.stopped fin ∈ notes id log ↔ Obs.stopped id fin ∈ log := by
  rw [notes, List.mem_filterMap]
  constructor
  · intro h
    obtain ⟨o, ho, hn⟩ := h
    cases o with
    | listed raw =>
      simp only [noteOf] at hn
      split at hn <;> simp at hn
    | sent m ok =>
      simp only [noteOf] at hn
      split at hn <;> simp at hn
    | stopped i f =>
      simp only [noteOf] at hn
      split at hn
      · rename_i hi
        cases hn
        rwa [hi] at ho
      · cases hn
  · intro h
    exact ⟨_, h, by simp [noteOf]⟩

/-- The log tells which matches are settled. -/
theorem settled_iff_stopped (sink : Sink RawMatch) (ts : List Tick) (id : String) :
    id ∈ (run sink ts).settled ↔ ∃ fin, Obs.stopped id fin ∈ (run sink ts).log := by
  rw [← phase_settled_iff, run_phase, after_settled_iff]
  simp only [reduceCtorEq, false_or, ← run_notes sink id ts, stopped_notes]

/-- The last board that was fetched. -/
def lastBoard (ts : List Tick) : Option (List RawMatch) := (ts.filterMap (·.board)).getLast?

/-- A match is still tracked after a tick only if the board lists it. -/
theorem tick_tracked (sink : Sink RawMatch) {p : Poller} (h : WF p) {t : Tick} {raws : List RawMatch} (ht : t.board = some raws)
    {id : String} {tm : TrackedMatch} (ha : (tick sink p t).active.get? id = some tm) : id ∈ seenOn raws := by
  by_contra hs
  have hphase := phase_tracked ((tick_wf sink h t).unsettled id tm ha) ha
  rw [(tick_refines sink h id t).1, sights, ht] at hphase
  simp only [hs, if_false, after_cons, after_nil] at hphase
  cases hp : phase p id <;> rw [hp] at hphase <;> cases hphase

theorem active_seen (sink : Sink RawMatch) (ts : List Tick) {id : String} {tm : TrackedMatch}
    (ha : (run sink ts).active.get? id = some tm) : ∃ raws, lastBoard ts = some raws ∧ id ∈ seenOn raws := by
  induction ts using List.reverseRecOn with
  | nil => simp [run, new] at ha
  | append_singleton ts t ih =>
    rw [run_append, List.foldl_cons, List.foldl_nil] at ha
    cases ht : t.board with
    | none =>
      have hboard : lastBoard (ts ++ [t]) = lastBoard ts := by simp [lastBoard, ht]
      rw [hboard]
      apply ih
      rwa [tick, ht] at ha
    | some raws =>
      refine ⟨raws, by simp [lastBoard, ht], ?_⟩
      exact tick_tracked sink (run_wf sink ts) ht ha

theorem settled_subset (sink : Sink RawMatch) (ts us : List Tick) : (run sink ts).settled ⊆ (run sink (ts ++ us)).settled := by
  intro id hid
  rw [← phase_settled_iff] at hid ⊢
  rw [run_phase] at hid
  rw [run_phase, List.flatMap_append, after_append, hid, settled_stays]

theorem no_frame_after_stop (sink : Sink RawMatch) (ts : List Tick) {pre post : List (Obs RawMatch)} {m : Match} {ok : Bool}
    (h : (run sink ts).log = pre ++ .sent m ok :: post) (fin : Bool) : Obs.stopped m.matchID fin ∉ pre := by
  have hnotes : notes m.matchID (run sink ts).log = notes m.matchID pre ++ .sent m :: notes m.matchID post := by
    rw [h, notes, List.filterMap_append, List.filterMap_cons_some (by simp [noteOf] : noteOf m.matchID (.sent m ok) = some (.sent m))]
    rfl
  have hsilent := outputs_silent (ts.flatMap (sights m.matchID)) .idle
  rw [← run_notes sink m.matchID ts] at hsilent
  rw [← stopped_notes]
  exact hsilent _ _ _ hnotes m rfl fin

structure Kept (sink : Sink RawMatch) (ts : List Tick) : Prop where
  disjoint : ∀ id ∈ (run sink ts).active.keys, id ∉ (run sink ts).settled
  seen : ∀ id ∈ (run sink ts).active.keys, ∃ raws, lastBoard ts = some raws ∧
    ∃ raw ∈ raws, raw.id ≠ 0 ∧ raw.opponent1 ≠ "" ∧ raw.opponent2 ≠ "" ∧ matchIDKey raw.id = id
  grows : ∀ us, (run sink ts).settled ⊆ (run sink (ts ++ us)).settled
  entered : ∀ id, id ∈ (run sink ts).settled ↔ ∃ fin, Obs.stopped id fin ∈ (run sink ts).log
  silent : ∀ pre m ok post, (run sink ts).log = pre ++ .sent m ok :: post → ∀ fin, Obs.stopped m.matchID fin ∉ pre
  failed : ∀ now, run sink (ts ++ [⟨now, none⟩]) = run sink ts

/-- In every state that ticks can reach. -/
theorem bookkeeping (sink : Sink RawMatch) (ts : List Tick) : Kept sink ts := by
  have hwf := run_wf sink ts
  refine ⟨fun id hid => ?_, fun id hid => ?_, settled_subset sink ts, settled_iff_stopped sink ts,
    fun pre m ok post h => no_frame_after_stop sink ts h, fun now => ?_⟩
  · obtain ⟨tm, ha⟩ := (Table.mem_keys _ id).mp hid
    exact hwf.unsettled id tm ha
  · obtain ⟨tm, ha⟩ := (Table.mem_keys _ id).mp hid
    obtain ⟨raws, hb, hs⟩ := active_seen sink ts ha
    obtain ⟨raw, hm, hsh⟩ := (mem_seenOn id raws).mp hs
    simp only [shows, listed, Bool.and_eq_true, bne_iff_ne, beq_iff_eq] at hsh
    exact ⟨raws, hb, raw, hm, hsh.1.1.1, hsh.1.1.2, hsh.1.2, hsh.2⟩
  · rw [run_append]
    rfl

end CasuyaLive.Ingest.Helabet
