/-
  CasuyaLive.Relay.Roles — what a public socket is shown, and an admin one.

  `publicLog` is every frame handed to a public socket, without its timestamp. A message of
  any other channel goes to admin sockets only; what it can still do is end the process,
  when the callback throws on it. `Quiet` is a message that does not, `public_sees_public`:
  two runs of quiet messages that agree on the sockets and on the public channel show the
  public sockets the same, and each open admin socket gets every message of a subscribed
  channel, where the relay can print them all (`Printed`).

  As built one null on the PnL channel takes the live feed from everybody
  (`a_null_ends_the_feed`).
-/

import CasuyaLive.Lib.Unwinding
import CasuyaLive.Relay.Server

namespace CasuyaLive.Relay

open CasuyaLive.Lib

def shown (x : Sent) : Nat × String × Json.Parsed := (x.socket, x.frame.type, x.frame.data)

def publicOf (sent : List Sent) : List (Nat × String × Json.Parsed) := (sent.filter fun x => x.role == .pub).map shown

def publicLog (r : Server) : List (Nat × String × Json.Parsed) := publicOf r.sent

theorem publicOf_append (a b : List Sent) : publicOf (a ++ b) = publicOf a ++ publicOf b := by
  simp only [publicOf, List.filter_append, List.map_append]

section

variable (node : Node) (env : Env)

/-- What two runs are to agree on: all but the messages of the other channels, and no
    message's time. -/
def low : Event → Option Event
  | .subscribe => some .subscribe
  | .upgrade url handshake now => some (.upgrade url handshake now)
  | .closing id => some (.closing id)
  | .closed id => some (.closed id)
  | .message ch text _ => if ch = env.publicChannel then some (.message ch text 0) else none

/-- A message of another channel that the callback takes: its frame is printed, and the
    ledger's part does not throw. -/
def Quiet (r : Server) : Event → Prop
  | .subscribe => True
  | .upgrade _ _ _ => True
  | .closing _ => True
  | .closed _ => True
  | .message ch text _ => ch ≠ env.publicChannel → ch ∈ subscribed env r →
      node.prints ch (payloadOf text) = true ∧ (env.isPnl ch = true → throws node.nums (payloadOf text) = false)

instance (r : Server) (e : Event) : Decidable (Quiet node env r e) := by
  cases e <;> unfold Quiet <;> infer_instance

/-- A message whose frame is printed. -/
def Printed (r : Server) : Event → Prop
  | .subscribe => True
  | .upgrade _ _ _ => True
  | .closing _ => True
  | .closed _ => True
  | .message ch text _ => ch ∈ subscribed env r → node.prints ch (payloadOf text) = true

instance (r : Server) (e : Event) : Decidable (Printed node env r e) := by
  cases e <;> unfold Printed <;> infer_instance

/-- Each open admin socket is handed every message of a subscribed channel. -/
def AdminsHear (es : List Event) (s : Server) : Prop :=
  ∀ pre ch text now, pre ++ [.message ch text now] <+: es → ch ∈ subscribed env (run node env s pre) →
    ∀ k ∈ (run node env s pre).sockets, k.isOpen = true → k.role = .admin →
      ∃ x ∈ (run node env s (pre ++ [.message ch text now])).sent.drop (run node env s pre).sent.length,
        x.socket = k.id ∧ x.frame.type = ch ∧ x.frame.data = payloadOf text

/-! ## Public sockets -/

/-- The part of the relay's state that public sockets depend on. -/
structure View where
  alive : Bool
  listening : Nat
  upgrades : Nat
  sockets : List Socket
  log : List (Nat × String × Json.Parsed)

def view (r : Server) : View := ⟨r.alive, r.listening, r.upgrades, r.sockets, publicLog r⟩

variable {env}

theorem fanOut_hidden (r : Server) {ch : String} (text : String) (now : Int) (h : ch ≠ env.publicChannel) :
    publicOf (fanOut env r ch text now) = [] := by
  have hne : (ch == env.publicChannel) = false := beq_eq_false_iff_ne.mpr h
  have hadmin : ∀ x ∈ fanOut env r ch text now, ¬(x.role == .pub) = true := by
    intro x hx
    obtain ⟨k, hk, rfl⟩ := List.mem_map.mp hx
    have hrole := (List.mem_filter.mp hk).2
    simp only [receives, hne, Bool.or_false, Bool.and_eq_true, beq_iff_eq] at hrole
    simp [hrole.2]
  rw [publicOf, List.filter_eq_nil_iff.mpr hadmin]
  rfl

/-- A frame that is not printed ends the process. -/
theorem onMessage_unprinted (r : Server) {ch text : String} (now : Int) (h : node.prints ch (payloadOf text) = false) :
    onMessage node env r ch text now = ended r := by rw [onMessage, if_pos h]

/-- A frame of the ledger that cannot be graded ends the process. -/
theorem onMessage_ends (r : Server) {ch text : String} (now : Int) (hprints : node.prints ch (payloadOf text) = true)
    (h : env.isPnl ch = true ∧ throws node.nums (payloadOf text) = true) :
    onMessage node env r ch text now = ended (fannedOut env r ch text now) := by
  obtain ⟨e, he⟩ := record_throws node.nums r.outcomes h.2
  rw [onMessage, if_neg (by simp [hprints]), if_pos h.1, he]

theorem onMessage_stays (r : Server) {ch text : String} (now : Int) (hprints : node.prints ch (payloadOf text) = true)
    (h : ¬ (env.isPnl ch = true ∧ throws node.nums (payloadOf text) = true)) :
    ∃ o, onMessage node env r ch text now =
      { fannedOut env r ch text now with outcomes := o, staleness := r.staleness.set ch now } := by
  rw [onMessage, if_neg (by simp [hprints])]
  by_cases hp : env.isPnl ch = true
  · have hgraded : throws node.nums (payloadOf text) = false := by simpa [hp] using h
    obtain ⟨o, ho⟩ := record_ok node.nums r.outcomes hgraded
    exact ⟨o, by rw [if_pos hp, ho]⟩
  · exact ⟨r.outcomes, by rw [if_neg hp]; rfl⟩

/-- Either the frame went out, or the process ended without it. -/
theorem onMessage_sent (r : Server) (ch text : String) (now : Int) :
    (node.prints ch (payloadOf text) = true ∧
      (onMessage node env r ch text now).sent = r.sent ++ fanOut env r ch text now) ∨
    (node.prints ch (payloadOf text) = false ∧ (onMessage node env r ch text now).sent = r.sent) := by
  by_cases hprints : node.prints ch (payloadOf text) = true
  · refine Or.inl ⟨hprints, ?_⟩
    by_cases hends : env.isPnl ch = true ∧ throws node.nums (payloadOf text) = true
    · rw [onMessage_ends node r now hprints hends]
      rfl
    · obtain ⟨o, ho⟩ := onMessage_stays node r now hprints hends
      rw [ho]
      rfl
  · rw [Bool.not_eq_true] at hprints
    refine Or.inr ⟨hprints, ?_⟩
    rw [onMessage_unprinted node r now hprints]
    rfl

theorem onMessage_hidden (r : Server) {ch text : String} (now : Int) (h : ch ≠ env.publicChannel)
    (hprints : node.prints ch (payloadOf text) = true)
    (hq : env.isPnl ch = true → throws node.nums (payloadOf text) = false) :
    view (onMessage node env r ch text now) = view r := by
  have hlog : publicOf (r.sent ++ fanOut env r ch text now) = publicLog r := by
    rw [publicOf_append, fanOut_hidden r text now h, List.append_nil]
    rfl
  have hstays : ¬ (env.isPnl ch = true ∧ throws node.nums (payloadOf text) = true) := by
    intro hends
    rw [hq hends.1] at hends
    exact Bool.false_ne_true hends.2
  obtain ⟨o, ho⟩ := onMessage_stays node r now hprints hstays
  simp only [ho, view, publicLog, fannedOut, hlog]

theorem deliver_hidden {ch text : String} (now : Int) (h : ch ≠ env.publicChannel)
    (hprints : node.prints ch (payloadOf text) = true)
    (hq : env.isPnl ch = true → throws node.nums (payloadOf text) = false) (n : Nat) :
    ∀ r : Server, view (deliver node env ch text now n r) = view r := by
  induction n with
  | zero => intro r; rfl
  | succ n ih =>
    intro r
    unfold deliver
    split
    · rw [ih, onMessage_hidden node r now h hprints hq]
    · rfl

theorem fanOut_view {r t : Server} (h : view r = view t) (ch text : String) (now now' : Int) :
    publicOf (fanOut env r ch text now) = publicOf (fanOut env t ch text now') := by
  have hs : r.sockets = t.sockets := congrArg View.sockets h
  simp only [publicOf, fanOut, hs, List.filter_map, List.map_map]
  rfl

theorem view_fields {r t : Server} (h : view r = view t) :
    r.alive = t.alive ∧ r.listening = t.listening ∧ r.upgrades = t.upgrades ∧ r.sockets = t.sockets ∧
      publicOf r.sent = publicOf t.sent :=
  ⟨congrArg View.alive h, congrArg View.listening h, congrArg View.upgrades h, congrArg View.sockets h, congrArg View.log h⟩

theorem onMessage_view {r t : Server} (h : view r = view t) (ch text : String) (now now' : Int) :
    view (onMessage node env r ch text now) = view (onMessage node env t ch text now') := by
  have hlog : publicOf (r.sent ++ fanOut env r ch text now) = publicOf (t.sent ++ fanOut env t ch text now') := by
    rw [publicOf_append, publicOf_append, fanOut_view h ch text now now']
    exact congrArg (· ++ _) (congrArg View.log h)
  obtain ⟨ha, hl, hu, hs, hsent⟩ := view_fields h
  by_cases hprints : node.prints ch (payloadOf text) = true
  · by_cases hends : env.isPnl ch = true ∧ throws node.nums (payloadOf text) = true
    · rw [onMessage_ends node r now hprints hends, onMessage_ends node t now' hprints hends]
      simp only [view, publicLog, ended, fannedOut, hlog, hl, hu]
    · obtain ⟨o, ho⟩ := onMessage_stays node r now hprints hends
      obtain ⟨o', ho'⟩ := onMessage_stays node t now' hprints hends
      simp only [ho, ho', view, publicLog, fannedOut, hlog, ha, hl, hu, hs]
  · rw [Bool.not_eq_true] at hprints
    rw [onMessage_unprinted node r now hprints, onMessage_unprinted node t now' hprints]
    simp only [view, publicLog, ended, hsent, hl, hu]

theorem deliver_view (ch text : String) (now now' : Int) (n : Nat) :
    ∀ {r t : Server}, view r = view t → view (deliver node env ch text now n r) = view (deliver node env ch text now' n t) := by
  induction n with
  | zero => intro r t h; exact h
  | succ n ih =>
    intro r t h
    have ha : r.alive = t.alive := congrArg View.alive h
    unfold deliver
    rw [ha]
    split
    · exact ih (onMessage_view node h ch text now now')
    · exact h

theorem subscribed_view {r t : Server} (h : view r = view t) : subscribed env r = subscribed env t :=
  congrArg (fun v : View => env.channels.take v.listening) h

theorem react_view {r t : Server} (h : view r = view t) (e : Event) : view (react node env r e) = view (react node env t e) := by
  obtain ⟨ha, hl, hu, hs, hlog⟩ := view_fields h
  cases e with
  | subscribe => simp only [react, view, publicLog, ha, hl, hu, hs, hlog]
  | upgrade url handshake now => simp only [react, view, publicLog, ha, hl, hu, hs, hlog]
  | closing id => simp only [react, view, publicLog, ha, hl, hu, hs, hlog]
  | closed id => simp only [react, view, publicLog, ha, hl, hu, hs, hlog]
  | message ch text now =>
    simp only [react, subscribed_view h]
    exact deliver_view node ch text now now _ h

/-- The observer is told the event itself, or a message without its time. -/
theorem low_some {e k : Event} (h : low env e = some k) :
    e = k ∨ ∃ ch text now, e = .message ch text now ∧ k = .message ch text 0 := by
  cases e with
  | subscribe => exact Or.inl (Option.some.inj h)
  | upgrade url handshake now => exact Or.inl (Option.some.inj h)
  | closing id => exact Or.inl (Option.some.inj h)
  | closed id => exact Or.inl (Option.some.inj h)
  | message ch text now =>
    rw [low] at h
    split at h
    · exact Or.inr ⟨ch, text, now, rfl, (Option.some.inj h).symm⟩
    · cases h

theorem react_told {r t : Server} (h : view r = view t) {e k : Event} (he : low env e = some k) :
    view (react node env r e) = view (react node env t k) := by
  rcases low_some he with rfl | ⟨ch, text, now, rfl, rfl⟩
  · exact react_view node h e
  · simp only [react, subscribed_view h]
    exact deliver_view node ch text now 0 _ h

theorem step_unwinding : Unwinding (step node env) (Quiet node env) (low env) view := by
  refine ⟨?_, ?_⟩
  · intro r e hq hl
    unfold step
    split
    · cases e with
      | message ch text now =>
        have hch : ch ≠ env.publicChannel := by
          intro he
          rw [low, if_pos he] at hl
          cases hl
        by_cases hsub : ch ∈ subscribed env r
        · obtain ⟨hprints, hgraded⟩ := hq hch hsub
          exact deliver_hidden node now hch hprints hgraded _ r
        · rw [react, List.count_eq_zero.mpr hsub]
          rfl
      | subscribe => cases hl
      | upgrade url handshake now => cases hl
      | closing id => cases hl
      | closed id => cases hl
    · rfl
  · intro r t e f k he hf h
    have ha : r.alive = t.alive := congrArg View.alive h
    unfold step
    rw [ha]
    split
    · rw [react_told node h he, react_told node rfl hf]
    · exact h

/-! ## Admin sockets -/

theorem deliver_sent (ch text : String) (now : Int) (n : Nat) :
    ∀ r : Server, r.sent <+: (deliver node env ch text now n r).sent := by
  induction n with
  | zero => intro r; exact List.prefix_refl _
  | succ n ih =>
    intro r
    unfold deliver
    split
    · apply List.IsPrefix.trans _ (ih _)
      rcases onMessage_sent node r ch text now with ⟨-, hsent⟩ | ⟨-, hsent⟩
      · rw [hsent]
        exact List.prefix_append _ _
      · rw [hsent]
    · exact List.prefix_refl _

/-- A process that has ended has no sockets. -/
def DeadIsEmpty (r : Server) : Prop := r.alive = false → r.sockets = []

theorem onMessage_dead {r : Server} (h : DeadIsEmpty r) (ch text : String) (now : Int) :
    DeadIsEmpty (onMessage node env r ch text now) := by
  by_cases hprints : node.prints ch (payloadOf text) = true
  · by_cases hends : env.isPnl ch = true ∧ throws node.nums (payloadOf text) = true
    · rw [onMessage_ends node r now hprints hends]
      exact fun _ => rfl
    · obtain ⟨o, ho⟩ := onMessage_stays node r now hprints hends
      rw [ho]
      exact h
  · rw [onMessage_unprinted node r now (by simpa using hprints)]
    exact fun _ => rfl

theorem deliver_dead (ch text : String) (now : Int) (n : Nat) :
    ∀ {r : Server}, DeadIsEmpty r → DeadIsEmpty (deliver node env ch text now n r) := by
  induction n with
  | zero => intro r h; exact h
  | succ n ih =>
    intro r h
    unfold deliver
    split
    · exact ih (onMessage_dead node h ch text now)
    · exact h

theorem step_dead (r : Server) (e : Event) (h : DeadIsEmpty r) : DeadIsEmpty (step node env r e) := by
  unfold step
  split
  · rename_i ha
    cases e with
    | message ch text now => exact deliver_dead node ch text now _ h
    | subscribe => exact fun hd => absurd ha (by simpa [react] using hd)
    | upgrade url handshake now => exact fun hd => absurd ha (by simpa [react] using hd)
    | closing id => exact fun hd => absurd ha (by simpa [react] using hd)
    | closed id => exact fun hd => absurd ha (by simpa [react] using hd)
  · exact h

theorem admin_receives (ch : String) {k : Socket} (ho : k.isOpen = true) (hr : k.role = .admin) :
    receives env ch k = true := by
  simp [receives, ho, hr]

theorem message_heard {r : Server} (ha : r.alive = true) {ch : String} (text : String) (now : Int)
    (hch : ch ∈ subscribed env r) (hprints : node.prints ch (payloadOf text) = true) {k : Socket} (hk : k ∈ r.sockets) (ho : k.isOpen = true) (hr : k.role = .admin) :
    ∃ x ∈ (step node env r (.message ch text now)).sent.drop r.sent.length,
      x.socket = k.id ∧ x.frame.type = ch ∧ x.frame.data = payloadOf text := by
  have hpos : 0 < (subscribed env r).count ch := List.count_pos_iff.mpr hch
  obtain ⟨n, hn⟩ := Nat.exists_eq_succ_of_ne_zero (Nat.ne_of_gt hpos)
  obtain ⟨rest, hrest⟩ := @deliver_sent node env ch text now n (onMessage node env r ch text now)
  have hout : (onMessage node env r ch text now).sent = r.sent ++ fanOut env r ch text now := by
    rcases onMessage_sent node r ch text now with ⟨-, hsent⟩ | ⟨hunprinted, -⟩
    · exact hsent
    · rw [hprints] at hunprinted
      cases hunprinted
  have hsent : (step node env r (.message ch text now)).sent = r.sent ++ (fanOut env r ch text now ++ rest) := by
    rw [step, if_pos ha, react, hn, deliver, if_pos ha, hrest.symm, hout, List.append_assoc]
  refine ⟨⟨k.id, k.role, ⟨ch, payloadOf text, now⟩⟩, ?_, rfl, rfl, rfl⟩
  rw [hsent, List.drop_left]
  apply List.mem_append_left
  exact List.mem_map_of_mem (List.mem_filter.mpr ⟨hk, admin_receives ch ho hr⟩)

theorem admins_hear (es : List Event) (outcomes : Outcomes) (staleness : Table String Int)
    (hprinted : Meets (step node env) (Printed node env) (start outcomes staleness) es) :
    AdminsHear node env es (start outcomes staleness) := by
  intro pre ch text now hpre hch k hk ho hr
  obtain ⟨post, rfl⟩ := hpre
  have hprints : node.prints ch (payloadOf text) = true :=
    meets_iff.mp hprinted pre (.message ch text now) post (List.append_assoc pre _ post) hch
  have hdead : DeadIsEmpty (run node env (start outcomes staleness) pre) :=
    fold_inv DeadIsEmpty (step_dead node) pre (fun h => absurd h (by simp [start]))
  have ha : (run node env (start outcomes staleness) pre).alive = true := by
    by_contra hd
    rw [hdead (by simpa using hd)] at hk
    cases hk
  have hlast : run node env (start outcomes staleness) (pre ++ [.message ch text now]) =
      step node env (run node env (start outcomes staleness) pre) (.message ch text now) := by
    simp only [run, List.foldl_append, List.foldl_cons, List.foldl_nil]
  rw [hlast]
  exact message_heard node ha text now hch hprints hk ho hr

/-! ## Two runs -/

/-- Public sockets are shown what the public channel carries, admin sockets everything, in
    runs of messages that do not end the process. -/
theorem public_sees_public (env : Env) (outcomes : Outcomes) (staleness : Table String Int) (as bs : List Event)
    (ha : Meets (step node env) (Quiet node env) (start outcomes staleness) as)
    (hb : Meets (step node env) (Quiet node env) (start outcomes staleness) bs)
    (hprinted : Meets (step node env) (Printed node env) (start outcomes staleness) as)
    (hlow : as.filterMap (low env) = bs.filterMap (low env)) :
    publicLog (run node env (start outcomes staleness) as) = publicLog (run node env (start outcomes staleness) bs) ∧
      AdminsHear node env as (start outcomes staleness) :=
  ⟨congrArg View.log ((step_unwinding node).run ha hb hlow rfl), admins_hear node as outcomes staleness hprinted⟩

end

/-! ## As built -/

def defaults : Env := ⟨"", none, none, none, none, none⟩

/-- A platform on which nobody has a token. -/
def plainNode : Node := ⟨fun _ _ => "", id, fun _ => "", ⟨fun _ => none, fun _ => none, fun _ => .ok none⟩, fun _ _ => true⟩

/-- The four channels are subscribed and a public socket connects. -/
def oneViewer : List Event := [.subscribe, .subscribe, .subscribe, .subscribe, .upgrade "/ws" true 0]

def liveFeed : List Event := [.message "matches:live" "\x7b\x7d" 1, .closed 0]

theorem a_settlement_is_not_shown :
    publicLog (run plainNode defaults (start ⟨0, 0, 0⟩ Table.empty)
      (oneViewer ++ .message "execution:pnl" "\x7b\"settled\":[\x7b\"result\":\"won\"\x7d]\x7d" 0 :: liveFeed)) =
    publicLog (run plainNode defaults (start ⟨0, 0, 0⟩ Table.empty) (oneViewer ++ liveFeed)) :=
  (public_sees_public plainNode defaults ⟨0, 0, 0⟩ Table.empty _ _ (by decide +kernel) (by decide +kernel)
    (by decide +kernel) (by rfl)).1

/-- One null on the PnL channel, and the viewer gets nothing more. -/
theorem a_null_ends_the_feed :
    (oneViewer ++ .message "execution:pnl" "null" 0 :: liveFeed).filterMap (low defaults) =
      (oneViewer ++ liveFeed).filterMap (low defaults) ∧
    publicLog (run plainNode defaults (start ⟨0, 0, 0⟩ Table.empty)
      (oneViewer ++ .message "execution:pnl" "null" 0 :: liveFeed)) ≠
    publicLog (run plainNode defaults (start ⟨0, 0, 0⟩ Table.empty) (oneViewer ++ liveFeed)) := by
  refine ⟨rfl, fun h => ?_⟩
  have hlen := congrArg List.length h
  revert hlen
  decide +kernel

end CasuyaLive.Relay
