/-
  CasuyaLive.Ingest.Contract — the boundary contract of the two feeds that never check it
  (data-ingestion-go, internal/stream/types.go: `Validate`; internal/helabet/poller.go and
  internal/betpawa/poller.go: `tick`, `toMatch`).

  Both project an entry to a frame only with three positive full-time odds and put them under
  the one market key (`toMatch_contract`). A settlement frame is a tracked frame with another
  clock and arrival time, so it is within the contract when what is tracked is, and every
  state of a run tracks projected frames only. `frames_in_contract`: every frame that either
  loop hands to the sink passes `Validate`.
-/

import CasuyaLive.Ingest.Helabet.Poller
import CasuyaLive.Ingest.Betpawa.Poller

namespace CasuyaLive.Ingest

open CasuyaLive.Lib CasuyaLive.Lib.Text CasuyaLive.Ingest.Stream

/-- A frame that `Validate` accepts, with the full-time market and no other. -/
structure Contract (m : Match) : Prop where
  valid : m.validate = none
  named : trimSpace m.matchID ≠ ""
  priced : ∀ x ∈ m.markets.entries, 0 < x.2.odds.home ∧ 0 < x.2.odds.draw ∧ 0 < x.2.odds.away
  market : ∃ mkt : Market, m.markets.entries = [(marketFT1X2, mkt)] ∧ mkt.marketID = marketFT1X2

def Positive (odds : OddsSet) : Prop := 0 < odds.home ∧ 0 < odds.draw ∧ 0 < odds.away

theorem validate_of_positive {mkt : Market} (h : Positive mkt.odds) : mkt.validate = none := by
  obtain ⟨hh, hd, ha⟩ := h
  simp [Market.validate, Rat.not_le.mpr hh, Rat.not_le.mpr hd, Rat.not_le.mpr ha]

/-- One priced full-time market under a name. -/
theorem contract_of {m : Match} {mkt : Market} (hid : trimSpace m.matchID ≠ "") (hkey : mkt.marketID = marketFT1X2)
    (hodds : Positive mkt.odds) (hm : m.markets = Table.empty.set marketFT1X2 mkt) : Contract m := by
  have hone : m.markets.entries = [(marketFT1X2, mkt)] := by rw [hm]; rfl
  refine ⟨?_, hid, ?_, mkt, hone, hkey⟩
  · rw [Match.validate, if_neg hid, hone]
    simp [validate_of_positive hodds]
  · intro x hx
    rw [hone, List.mem_singleton] at hx
    rw [hx]
    exact hodds

/-- Another clock and another time of arrival. -/
theorem Contract.reclocked {m n : Match} (h : Contract m) (hid : n.matchID = m.matchID) (hm : n.markets = m.markets) :
    Contract n := by
  obtain ⟨hv, hn, hp, hk⟩ := h
  refine ⟨?_, by rwa [hid], by rwa [hm], by rwa [hm]⟩
  rw [Match.validate, hid, hm]
  exact hv

theorem Contract.settlement {m : Match} (h : Contract m) (now : Int) : Contract (m.settlement now) := h.reclocked rfl rfl

variable {ρ : Type}

/-- Every frame of the log is within the contract. -/
def Sound (log : List (Obs ρ)) : Prop := ∀ m ∈ frames log, Contract m

theorem sound_sent {log : List (Obs ρ)} (h : Sound log) {m : Match} (hm : Contract m) (ok : Bool) : Sound (log ++ [.sent m ok]) := by
  intro n hn
  simp only [frames, List.filterMap_append, List.filterMap_cons, List.filterMap_nil, List.mem_append, List.mem_singleton] at hn
  rcases hn with hn | hn
  · exact h n hn
  · rw [hn]
    exact hm

theorem sound_listed {log : List (Obs ρ)} (h : Sound log) (raw : ρ) : Sound (log ++ [.listed raw]) := by
  intro n hn
  exact h n (by simpa [frames] using hn)

theorem sound_stopped {log : List (Obs ρ)} (h : Sound log) (id : String) (fin : Bool) : Sound (log ++ [.stopped id fin]) := by
  intro n hn
  exact h n (by simpa [frames] using hn)

/-! ## Helabet -/

namespace Helabet

theorem ftOdds_positive {groups : List EventGroup} {odds : OddsSet} (h : ftOdds groups = some odds) : Positive odds := by
  unfold ftOdds at h
  split at h
  · cases h
  · split at h
    · cases h
    · rename_i hpos
      cases h
      simpa only [Positive, Bool.or_eq_true, decide_eq_true_eq, not_or, Rat.not_le, and_assoc] using hpos

theorem matchIDKey_ne_blank (id : Int) : trimSpace (matchIDKey id) ≠ "" := by
  have hh : 'h' ∈ (matchIDKey id).toList := by
    rw [matchIDKey, String.toList_append]
    exact List.mem_append_left _ (by decide)
  exact trim_ne_blank hh (by decide)

theorem toMatch_contract {now : Int} {raw : RawMatch} {m : Match} (h : toMatch now raw = some m) : Contract m := by
  unfold toMatch at h
  split at h
  · cases h
  · split at h
    · cases h
    · rename_i odds hodds
      simp only [Option.some.injEq] at h
      subst h
      exact contract_of (matchIDKey_ne_blank raw.id) rfl (ftOdds_positive hodds) rfl

theorem WF.contract {p : Poller} (h : WF p) {id : String} {tm : TrackedMatch} (ha : p.active.get? id = some tm) :
    Contract tm.lastFrame := by
  obtain ⟨now, hf⟩ := h.frame id tm ha
  exact toMatch_contract hf

theorem onEntry_sound (sink : Sink RawMatch) (now : Int) {p : Poller} (h : Sound p.log) (raw : RawMatch) :
    Sound (onEntry sink now p raw).log := by
  unfold onEntry
  split
  · exact h
  · have hl := sound_listed h raw
    simp only
    split
    · exact hl
    · cases hm : toMatch now raw with
      | none => exact hl
      | some frame =>
        have hc := toMatch_contract hm
        simp only
        split
        · exact sound_stopped (sound_sent hl (hc.settlement now) _) _ _
        · exact sound_sent hl hc _

theorem onDrop_sound (sink : Sink RawMatch) (now : Int) {p : Poller} (h : Sound p.log) {x : String × TrackedMatch}
    (hx : Contract x.2.lastFrame) : Sound (onDrop sink now p x).log := by
  unfold onDrop
  split
  · exact sound_stopped (sound_sent h (hx.settlement now) _) _ _
  · exact sound_stopped h _ _

theorem drops_sound (sink : Sink RawMatch) (now : Int) (l : List (String × TrackedMatch)) {p : Poller} (h : Sound p.log)
    (hl : ∀ x ∈ l, Contract x.2.lastFrame) : Sound (l.foldl (onDrop sink now) p).log := by
  induction l generalizing p with
  | nil => exact h
  | cons x l ih =>
    exact ih (onDrop_sound sink now h (hl x List.mem_cons_self)) fun y hy => hl y (List.mem_cons_of_mem _ hy)

theorem tick_sound (sink : Sink RawMatch) {p : Poller} (hw : WF p) (h : Sound p.log) (t : Tick) : Sound (tick sink p t).log := by
  unfold tick
  cases t.board with
  | none => exact h
  | some raws =>
    have hsound := fold_inv (fun q : Poller => Sound q.log) (fun q raw hq => onEntry_sound sink t.now hq raw) raws h
    have hwf := fold_inv WF (fun q raw hq => onEntry_wf sink t.now hq raw) raws hw
    refine drops_sound sink t.now _ hsound fun x hx => ?_
    exact hwf.contract ((Table.mem_iff _ _ _).mp (List.mem_of_mem_filter hx))

theorem run_sound (sink : Sink RawMatch) (ts : List Tick) : Sound (run sink ts).log := by
  have hnew : WF new ∧ Sound new.log := ⟨new_wf, by simp [Sound, new, frames]⟩
  exact (fold_inv (fun p => WF p ∧ Sound p.log) (fun p t h => ⟨tick_wf sink h.1 t, tick_sound sink h.1 h.2 t⟩) ts hnew).2

end Helabet

/-! ## Betpawa -/

namespace Betpawa

theorem ftOdds_positive {markets : List RawMarket} {odds : OddsSet} (h : ftOdds markets = some odds) : Positive odds := by
  induction markets with
  | nil => cases h
  | cons m ms ih =>
    unfold ftOdds at h
    split at h
    · exact ih h
    · split at h
      · exact ih h
      · simp only at h
        split at h
        · rename_i hpos
          cases h
          exact hpos
        · exact ih h

theorem toMatch_contract {now : Int} {ev : RawEvent} {m : Match} (h : toMatch now ev = some m) : Contract m := by
  have hb : 'b' ∈ ("bp-" ++ ev.id).toList := by
    rw [String.toList_append]
    exact List.mem_append_left _ (by decide)
  unfold toMatch at h
  split at h
  · cases h
  · split at h
    · cases h
    · rename_i odds hodds
      simp only [Option.some.injEq] at h
      subst h
      exact contract_of (trim_ne_blank hb (by decide)) rfl (ftOdds_positive hodds) rfl

/-- Tracked and sent frames are within the contract. -/
structure Priced (p : Poller) : Prop where
  tracked : ∀ id trk, p.active.get? id = some trk → Contract trk.frame
  sent : Sound p.log

theorem onEvent_priced (sink : Sink RawEvent) (now : Int) {p : Poller} (h : Priced p) (ev : RawEvent) :
    Priced (onEvent sink now p ev) := by
  cases hm : toMatch now ev with
  | none => rwa [onEvent_skip sink p hm]
  | some m =>
    have hc := toMatch_contract hm
    obtain ⟨hget, hlog⟩ := onEvent_spec sink p hm
    refine ⟨fun id trk hg => ?_, ?_⟩
    · rw [hget] at hg
      split at hg
      · cases hg
        exact hc
      · exact h.tracked id trk hg
    · have hfull : Contract { m with clock := fulltime } := hc.reclocked rfl rfl
      have hfirst := sound_sent h.sent hc (sink p.log m)
      rw [hlog, eventLog]
      split
      · have hsecond := sound_stopped (sound_sent hfirst hfull
          (sink (p.log ++ [Obs.sent m (sink p.log m)]) { m with clock := fulltime })) m.matchID true
        simpa using hsecond
      · exact hfirst

theorem onDrop_priced (sink : Sink RawEvent) (now : Int) {p : Poller} (h : Priced p) {x : String × Tracked}
    (hx : Contract x.2.frame) : Priced (onDrop sink now p x) := by
  obtain ⟨hact, hlog⟩ := onDrop_spec sink now p x
  refine ⟨fun id trk hg => ?_, ?_⟩
  · rw [hact, Table.get?_erase] at hg
    split at hg
    · cases hg
    · exact h.tracked id trk hg
  · rw [hlog, dropLog]
    split
    · rw [← List.append_assoc]
      exact sound_stopped (sound_sent h.sent (hx.settlement now) _) _ _
    · exact sound_stopped h.sent _ _

theorem drops_priced (sink : Sink RawEvent) (now : Int) (l : List (String × Tracked)) {p : Poller} (h : Priced p)
    (hl : ∀ x ∈ l, Contract x.2.frame) : Priced (l.foldl (onDrop sink now) p) := by
  induction l generalizing p with
  | nil => exact h
  | cons x l ih =>
    exact ih (onDrop_priced sink now h (hl x List.mem_cons_self)) fun y hy => hl y (List.mem_cons_of_mem _ hy)

theorem tick_priced (sink : Sink RawEvent) {p : Poller} (h : Priced p) (t : Tick) : Priced (tick sink p t) := by
  unfold tick
  cases t.feed with
  | none => exact h
  | some evs =>
    have hevents := fold_inv Priced (fun q ev hq => onEvent_priced sink t.now hq ev) evs h
    refine drops_priced sink t.now _ hevents fun x hx => ?_
    exact hevents.tracked x.1 x.2 ((Table.mem_iff _ _ _).mp (List.mem_of_mem_filter hx))

theorem run_priced (sink : Sink RawEvent) (ts : List Tick) : Priced (run sink ts) := by
  have hnew : Priced new := ⟨fun id trk h => by simp [new] at h, by simp [Sound, new, frames]⟩
  exact fold_inv Priced (fun p t h => tick_priced sink h t) ts hnew

end Betpawa

/-- Whatever the feeds hold and the sink answers. -/
theorem frames_in_contract :
    (∀ (sink : Sink Helabet.RawMatch) (ts : List Helabet.Tick), ∀ m ∈ frames (Helabet.run sink ts).log, Contract m) ∧
      ∀ (sink : Sink Betpawa.RawEvent) (ts : List Betpawa.Tick), ∀ m ∈ frames (Betpawa.run sink ts).log, Contract m :=
  ⟨Helabet.run_sound, fun sink ts => (Betpawa.run_priced sink ts).sent⟩

end CasuyaLive.Ingest
