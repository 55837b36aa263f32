/-
  CasuyaLive.Ingest.Helabet.Track — one match under the poll loop.

  For one match id the poller is a machine of three phases: not tracked, tracked with the
  last accepted entry, settled. It moves on what a board shows of the match (`Sight`) and
  answers with what the log gains about it (`Note`). `tick_phase` and `tick_notes`: a tick
  of the poller is this machine run over the board's sights of the match, whatever the
  sink; `run_phase` and `run_notes`: so is a whole run.
-/

import CasuyaLive.Ingest.Helabet.Poller

namespace CasuyaLive.Ingest.Helabet

open CasuyaLive.Lib CasuyaLive.Ingest.Stream

inductive Phase where
  | idle
  | tracked (tm : TrackedMatch)
  | settled

inductive Sight where
  | entry (now : Int) (raw : RawMatch)
  | absent (now : Int)

inductive Note where
  | listed (raw : RawMatch)
  | sent (m : Match)
  | stopped (finished : Bool)

def seeEntry (ph : Phase) (now : Int) (raw : RawMatch) : Phase × List Note :=
  match toMatch now raw with
  | none => (ph, [.listed raw])
  | some frame =>
    if isFullTime raw then (.settled, [.listed raw, .sent (frame.settlement now), .stopped true])
    else (.tracked ⟨raw, frame⟩, [.listed raw, .sent frame])

def dropNotes (now : Int) (tm : TrackedMatch) : List Note :=
  if finishedAtDrop now tm then [.sent (tm.lastFrame.settlement now), .stopped true] else [.stopped false]

def see : Phase → Sight → Phase × List Note
  | .settled, .entry _ raw => (.settled, [.listed raw])
  | .settled, .absent _ => (.settled, [])
  | .idle, .entry now raw => seeEntry .idle now raw
  | .idle, .absent _ => (.idle, [])
  | .tracked tm, .entry now raw => seeEntry (.tracked tm) now raw
  | .tracked tm, .absent now => (.settled, dropNotes now tm)

/-! ## Reading the poller -/

def phase (p : Poller) (id : String) : Phase :=
  if id ∈ p.settled then .settled
  else
    match p.active.get? id with
    | some tm => .tracked tm
    | none => .idle

/-- What one observation says about the match. -/
def noteOf (id : String) : Obs RawMatch → Option Note
  | .listed raw => if matchIDKey raw.id = id then some (.listed raw) else none
  | .sent m _ => if m.matchID = id then some (.sent m) else none
  | .stopped i fin => if i = id then some (.stopped fin) else none

def notes (id : String) (log : List (Obs RawMatch)) : List Note := log.filterMap (noteOf id)

def shows (id : String) (raw : RawMatch) : Bool := listed raw && matchIDKey raw.id == id

/-- What a tick shows of the match: its entries in turn, or its absence. -/
def sights (id : String) (t : Tick) : List Sight :=
  match t.board with
  | none => []
  | some raws => if id ∈ seenOn raws then (raws.filter (shows id)).map (.entry t.now) else [.absent t.now]

theorem mem_seenOn (id : String) (raws : List RawMatch) : id ∈ seenOn raws ↔ ∃ raw ∈ raws, shows id raw := by
  simp only [seenOn, List.mem_map, List.mem_filter, shows, Bool.and_eq_true, beq_iff_eq]
  constructor
  · intro hx
    rcases hx with ⟨raw, ⟨hm, hl⟩, hk⟩
    exact ⟨raw, hm, hl, hk⟩
  · intro hx
    rcases hx with ⟨raw, hm, hl, hk⟩
    exact ⟨raw, ⟨hm, hl⟩, hk⟩

theorem phase_idle {p : Poller} {id : String} (hs : id ∉ p.settled) (ha : p.active.get? id = none) :
    phase p id = .idle := by simp [phase, hs, ha]

theorem phase_tracked {p : Poller} {id : String} {tm : TrackedMatch} (hs : id ∉ p.settled)
    (ha : p.active.get? id = some tm) : phase p id = .tracked tm := by simp [phase, hs, ha]

theorem phase_settled {p : Poller} {id : String} (hs : id ∈ p.settled) : phase p id = .settled := by simp [phase, hs]

theorem phase_eq_tracked {p : Poller} {id : String} {tm : TrackedMatch} (h : phase p id = .tracked tm) :
    p.active.get? id = some tm := by
  unfold phase at h
  split at h
  · cases h
  · split at h
    · rename_i ha
      cases h
      exact ha
    · cases h

/-! ## One entry -/

theorem onEntry_other (sink : Sink RawMatch) (now : Int) (p : Poller) {raw : RawMatch} {id : String} (h : shows id raw = false) :
    phase (onEntry sink now p raw) id = phase p id ∧
      notes id (onEntry sink now p raw).log = notes id p.log := by
  unfold onEntry
  split
  · exact ⟨rfl, rfl⟩
  · rename_i hl
    have hk : matchIDKey raw.id ≠ id := by
      intro e
      simp only [Bool.not_eq_true', Bool.not_eq_false] at hl
      simp [shows, hl, e] at h
    have hk' : id ≠ matchIDKey raw.id := Ne.symm hk
    simp only
    split
    · exact ⟨rfl, by simp [notes, noteOf, hk]⟩
    · cases hm : toMatch now raw with
      | none => exact ⟨rfl, by simp [notes, noteOf, hk]⟩
      | some frame =>
        have hid : frame.matchID ≠ id := by rw [(toMatch_spec hm).1]; exact hk
        simp only
        split
        · exact ⟨by simp [phase, markSettled, safePublish, hk'], by simp [notes, noteOf, markSettled, safePublish, hk, hid]⟩
        · exact ⟨by simp [phase, safePublish, hk'], by simp [notes, noteOf, safePublish, hk, hid]⟩

theorem onEntry_own (sink : Sink RawMatch) (now : Int) (p : Poller) {raw : RawMatch} {id : String} (h : shows id raw = true) :
    phase (onEntry sink now p raw) id = (see (phase p id) (.entry now raw)).1 ∧
      notes id (onEntry sink now p raw).log = notes id p.log ++ (see (phase p id) (.entry now raw)).2 := by
  simp only [shows, Bool.and_eq_true, beq_iff_eq] at h
  obtain ⟨hl, rfl⟩ := h
  unfold onEntry
  simp only [hl, Bool.not_true, Bool.false_eq_true, if_false]
  by_cases hs : matchIDKey raw.id ∈ p.settled
  · simp [hs, phase, see, notes, noteOf]
  · have hsee : see (phase p (matchIDKey raw.id)) (.entry now raw) = seeEntry (phase p (matchIDKey raw.id)) now raw := by
      unfold phase
      rw [if_neg hs]
      cases p.active.get? (matchIDKey raw.id) <;> rfl
    rw [hsee]
    simp only [hs, if_false, seeEntry]
    cases hm : toMatch now raw with
    | none => exact ⟨rfl, by simp [notes, noteOf]⟩
    | some frame =>
      have hid := (toMatch_spec hm).1
      simp only
      split
      · exact ⟨by simp [phase, markSettled], by simp [notes, noteOf, markSettled, safePublish, hid]⟩
      · exact ⟨by simp [phase, safePublish, hs], by simp [notes, noteOf, safePublish, hid]⟩

theorem onEntries (sink : Sink RawMatch) (now : Int) (id : String) : ∀ (raws : List RawMatch) (p : Poller),
    phase (raws.foldl (onEntry sink now) p) id = after see (phase p id) ((raws.filter (shows id)).map (.entry now)) ∧
      notes id (raws.foldl (onEntry sink now) p).log =
        notes id p.log ++ outputs see (phase p id) ((raws.filter (shows id)).map (.entry now)) := by
  intro raws
  induction raws with
  | nil => intro p; simp
  | cons raw raws ih =>
    intro p
    obtain ⟨hp, hn⟩ := ih (onEntry sink now p raw)
    rw [List.foldl_cons]
    cases hs : shows id raw with
    | false =>
      obtain ⟨ho, hon⟩ := onEntry_other sink now p hs
      rw [hp, hn, ho, hon]
      simp [hs]
    | true =>
      obtain ⟨ho, hon⟩ := onEntry_own sink now p hs
      rw [hp, hn, ho, hon]
      simp [hs]

/-! ## The drop -/

theorem onDrop_settled (sink : Sink RawMatch) (now : Int) (p : Poller) (x : String × TrackedMatch) :
    (onDrop sink now p x).settled = x.1 :: p.settled := by
  unfold onDrop
  split <;> rfl

theorem onDrop_active (sink : Sink RawMatch) (now : Int) (p : Poller) (x : String × TrackedMatch) :
    (onDrop sink now p x).active = p.active.erase x.1 := by
  unfold onDrop
  split <;> rfl

theorem onDrop_notes (sink : Sink RawMatch) (now : Int) (p : Poller) {x : String × TrackedMatch} (id : String)
    (hx : x.2.lastFrame.matchID = x.1) :
    notes id (onDrop sink now p x).log = notes id p.log ++ if x.1 = id then dropNotes now x.2 else [] := by
  unfold onDrop dropNotes
  by_cases h : x.1 = id <;> cases hf : finishedAtDrop now x.2 <;>
    simp [notes, noteOf, markSettled, safePublish, h, hx]

theorem drops_phase (sink : Sink RawMatch) (now : Int) (id : String) : ∀ (l : List (String × TrackedMatch)) (p : Poller),
    phase (l.foldl (onDrop sink now) p) id = if id ∈ l.map (·.1) then .settled else phase p id := by
  intro l
  induction l with
  | nil => intro p; simp
  | cons x l ih =>
    intro p
    rw [List.foldl_cons, ih]
    by_cases h : id = x.1
    · have hd : phase (onDrop sink now p x) id = .settled := phase_settled (by rw [onDrop_settled]; simp [h])
      rw [hd, ite_self, List.map_cons, if_pos (by simp [h])]
    · have hd : phase (onDrop sink now p x) id = phase p id := by
        simp [phase, onDrop_settled, onDrop_active, h]
      simp only [hd, List.map_cons, List.mem_cons, h, false_or]

theorem drops_notes (sink : Sink RawMatch) (now : Int) (id : String) : ∀ (l : List (String × TrackedMatch)) (p : Poller),
    (∀ x ∈ l, x.2.lastFrame.matchID = x.1) →
    notes id (l.foldl (onDrop sink now) p).log =
      notes id p.log ++ (l.filter (·.1 == id)).flatMap fun x => dropNotes now x.2 := by
  intro l
  induction l with
  | nil => intro p _; simp
  | cons x l ih =>
    intro p hl
    rw [List.foldl_cons, ih _ fun y hy => hl y (List.mem_cons_of_mem _ hy),
      onDrop_notes sink now p id (hl x List.mem_cons_self)]
    by_cases h : x.1 = id <;> simp [h]

theorem absent_keys {p : Poller} {seen : List String} {id : String} :
    id ∈ (p.active.entries.filter fun x => !seen.contains x.1).map (·.1) ↔
      id ∉ seen ∧ ∃ tm, p.active.get? id = some tm := by
  simp only [List.mem_map, List.mem_filter, Prod.exists, Table.mem_iff]
  constructor
  · intro hx
    rcases hx with ⟨i, tm, ⟨ha, hs⟩, rfl⟩
    exact ⟨by simpa using hs, tm, ha⟩
  · intro hx
    rcases hx with ⟨hs, tm, ha⟩
    exact ⟨id, tm, ⟨ha, by simpa using hs⟩, rfl⟩

theorem absent_own (p : Poller) {seen : List String} {id : String} (h : id ∉ seen) :
    (p.active.entries.filter fun x => !seen.contains x.1).filter (·.1 == id) =
      (p.active.get? id).toList.map fun tm => (id, tm) := by
  rw [← Table.filter_key, List.filter_filter]
  apply List.filter_congr
  intro x _
  by_cases hx : x.1 = id <;> simp [hx, h]

theorem dropAbsent_seen (sink : Sink RawMatch) (now : Int) {seen : List String} {p : Poller} (h : WF p) {id : String}
    (hs : id ∈ seen) :
    phase (dropAbsent sink now seen p) id = phase p id ∧ notes id (dropAbsent sink now seen p).log = notes id p.log := by
  have hk : id ∉ (p.active.entries.filter fun x => !seen.contains x.1).map (·.1) := by
    rw [absent_keys]
    exact fun e => e.1 hs
  constructor
  · rw [dropAbsent, drops_phase, if_neg hk]
    simp [phase, Table.get?_filter, hs]
  · rw [dropAbsent, drops_notes]
    · have : (p.active.entries.filter fun x => !seen.contains x.1).filter (·.1 == id) = [] := by
        rw [List.filter_eq_nil_iff]
        intro x hx he
        exact hk (List.mem_map.mpr ⟨x, hx, by simpa using he⟩)
      rw [this, List.flatMap_nil, List.append_nil]
    · intro x hx
      exact h.matchID ((Table.mem_iff _ _ _).mp (List.mem_of_mem_filter hx))

theorem dropAbsent_unseen (sink : Sink RawMatch) (now : Int) {seen : List String} {p : Poller} (h : WF p) {id : String}
    (hs : id ∉ seen) :
    phase (dropAbsent sink now seen p) id = (see (phase p id) (.absent now)).1 ∧
      notes id (dropAbsent sink now seen p).log = notes id p.log ++ (see (phase p id) (.absent now)).2 := by
  have hid : ∀ x ∈ p.active.entries.filter fun x => !seen.contains x.1, x.2.lastFrame.matchID = x.1 := fun x hx =>
    h.matchID ((Table.mem_iff _ _ _).mp (List.mem_of_mem_filter hx))
  rw [dropAbsent, drops_phase, drops_notes sink now id _ _ hid, absent_own p hs]
  cases ha : p.active.get? id with
  | none =>
    have hk : id ∉ (p.active.entries.filter fun x => !seen.contains x.1).map (·.1) := by
      rw [absent_keys, ha]
      intro hx
      rcases hx with ⟨-, tm, e⟩
      cases e
    rw [if_neg hk]
    by_cases hm : id ∈ p.settled <;> simp [phase, Table.get?_filter, ha, hm, see]
  | some tm =>
    have hk : id ∈ (p.active.entries.filter fun x => !seen.contains x.1).map (·.1) := absent_keys.mpr ⟨hs, tm, ha⟩
    have hm := h.unsettled id tm ha
    rw [if_pos hk]
    simp [phase, ha, hm, see]

/-! ## A tick and a run -/

theorem onEntries_wf (sink : Sink RawMatch) (now : Int) (raws : List RawMatch) {p : Poller} (h : WF p) :
    WF (raws.foldl (onEntry sink now) p) := fold_inv WF (fun _ raw hq => onEntry_wf sink now hq raw) raws h

theorem tick_refines (sink : Sink RawMatch) {p : Poller} (h : WF p) (id : String) (t : Tick) :
    phase (tick sink p t) id = after see (phase p id) (sights id t) ∧
      notes id (tick sink p t).log = notes id p.log ++ outputs see (phase p id) (sights id t) := by
  unfold tick sights
  cases t.board with
  | none => simp
  | some raws =>
    obtain ⟨hp, hn⟩ := onEntries sink t.now id raws p
    have hw := onEntries_wf sink t.now raws h
    by_cases hs : id ∈ seenOn raws
    · obtain ⟨dp, dn⟩ := dropAbsent_seen sink t.now hw hs
      simp only [hs, if_true]
      exact ⟨dp.trans hp, dn.trans hn⟩
    · obtain ⟨dp, dn⟩ := dropAbsent_unseen sink t.now hw hs
      have hnil : raws.filter (shows id) = [] := by
        rw [List.filter_eq_nil_iff]
        intro raw hm hsh
        exact hs ((mem_seenOn id raws).mpr ⟨raw, hm, hsh⟩)
      simp only [hnil, List.map_nil, after_nil, outputs_nil, List.append_nil] at hp hn
      simp only [hs, if_false, after_cons, after_nil, outputs_cons, outputs_nil, List.append_nil]
      rw [dp, dn, hp, hn]
      exact ⟨rfl, rfl⟩

theorem run_append (sink : Sink RawMatch) (ts us : List Tick) : run sink (ts ++ us) = us.foldl (tick sink) (run sink ts) :=
  List.foldl_append

theorem ticks_refine (sink : Sink RawMatch) (id : String) : ∀ (ts : List Tick) {p : Poller}, WF p →
    phase (ts.foldl (tick sink) p) id = after see (phase p id) (ts.flatMap (sights id)) ∧
      notes id (ts.foldl (tick sink) p).log = notes id p.log ++ outputs see (phase p id) (ts.flatMap (sights id)) := by
  intro ts
  induction ts with
  | nil => intro p _; simp
  | cons t ts ih =>
    intro p h
    obtain ⟨hp, hn⟩ := tick_refines sink h id t
    obtain ⟨ip, en⟩ := ih (tick_wf sink h t)
    rw [List.foldl_cons, ip, en, hp, hn, List.flatMap_cons, after_append, outputs_append, List.append_assoc]
    exact ⟨rfl, rfl⟩

/-- A whole run is the machine run over the match's sights. -/
theorem run_phase (sink : Sink RawMatch) (id : String) (ts : List Tick) :
    phase (run sink ts) id = after see .idle (ts.flatMap (sights id)) :=
  (ticks_refine sink id ts new_wf).1

theorem run_notes (sink : Sink RawMatch) (id : String) (ts : List Tick) :
    notes id (run sink ts).log = outputs see .idle (ts.flatMap (sights id)) :=
  (ticks_refine sink id ts new_wf).2

/-- A settled match stays settled, whatever is seen of it. -/
theorem settled_stays (es : List Sight) : after see .settled es = .settled := by
  induction es with
  | nil => rfl
  | cons e es ih => cases e <;> simpa [see] using ih

end CasuyaLive.Ingest.Helabet
