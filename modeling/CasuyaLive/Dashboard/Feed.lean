/-
  CasuyaLive.Dashboard.Feed — the dashboard's sockets, and what they show (web-interface-js,
  frontend/src/hooks: `useWebSockets`, `useAdminWebSockets`).

  The hooks keep their socket in one way (`Hook`); what a frame does to what is shown is
  each one's own (`onFrame`). A socket that closes sets a timer, and the timer opens the next
  one. The admin hook's effect runs anew for each token; the others run theirs once. An
  effect disposed of closes its socket, whose handlers return at once: it is dropped.

  Proved:
  (1) `run_kept`, `hook_reconnects`: in every run the state is what the frames heard make of
      it; until the effect is disposed of there is a socket or a timer, never both; the timer
      waits a second for each socket lost since the last one that opened, fifteen at most.
  (2) `feed_shows`, `desk_shows`: of the frames heard, over all sockets, the grid holds the
      last one of each of the 40 latest matches, the newest first, and each history its
      latest entries (`Feed.Shows.last_heard`: a match shown is the last heard of it).
-/

import CasuyaLive.Dashboard.Session
import CasuyaLive.Lib.Newest
import CasuyaLive.Lib.Run

namespace CasuyaLive.Dashboard

open CasuyaLive.Lib

/-! ## A socket that is kept -/

inductive SocketState where
  | connecting
  | live
  | closing
  deriving DecidableEq

structure Hook (σ : Type) where
  mounted : Bool
  disposed : Bool
  connected : Bool
  retry : Nat
  socket : Option SocketState
  /-- The delay of the timer that is set. -/
  timer : Option Nat
  state : σ

inductive HookEvent where
  | opened
  | message (text : String)
  | error
  | closed
  | fired
  /-- The effect runs anew, with a token or with none. -/
  | token (held : Bool)
  | unmount

/-- What a run of a hook leaves to tell. -/
inductive Note where
  | up
  | down
  | frame (f : Json.Parsed)

def Note.frame? : Note → Option Json.Parsed
  | .up => none
  | .down => none
  | .frame f => some f

/-- Sockets lost since the last one that opened. -/
def failures (log : List Note) : Nat :=
  log.foldl (fun n x => match x with
    | .up => 0
    | .down => n + 1
    | .frame _ => n) 0

section

variable {σ : Type} (onFrame : σ → Json.Parsed → σ)

def Hook.mount (s : σ) : Hook σ := ⟨true, false, false, 0, some .connecting, none, s⟩

def Hook.connect (h : Hook σ) : Hook σ := if h.disposed then h else { h with socket := some .connecting }

def Hook.turn (h : Hook σ) : HookEvent → Hook σ × List Note
  | .opened =>
    if h.disposed ∨ h.socket ≠ some .connecting then (h, [])
    else ({ h with socket := some .live, connected := true, retry := 0 }, [.up])
  | .message text =>
    if h.disposed ∨ h.socket ≠ some .live then (h, [])
    else
      match Json.parse text.toList with
      | none => (h, [])
      | some f => ({ h with state := onFrame h.state f }, [.frame f])
  | .error => ({ h with socket := h.socket.map fun _ => .closing }, [])
  | .closed =>
    if h.disposed ∨ h.socket = none then (h, [])
    else
      ({ h with socket := none, connected := false, retry := h.retry + 1, timer := some (min (1000 * (h.retry + 1)) 15000) },
        [.down])
  | .fired => if h.timer = none then (h, []) else (Hook.connect { h with timer := none }, [])
  | .token held =>
    if h.mounted = false then (h, [])
    else if held then (Hook.connect { h with disposed := false, timer := none }, [])
    else ({ h with disposed := true, connected := false, socket := none, timer := none }, [])
  | .unmount => ({ h with mounted := false, disposed := true, socket := none, timer := none }, [])

/-- What is known of a hook from what its run left to tell. -/
structure Kept (s : σ) (log : List Note) (h : Hook σ) : Prop where
  retry : h.retry = failures log
  timer : ∀ d, h.timer = some d → h.socket = none ∧ 0 < failures log ∧ d = min (1000 * failures log) 15000
  going : h.disposed = false → h.mounted = true ∧ (h.socket.isSome = true ∨ h.timer.isSome = true)
  stopped : h.disposed = true → h.socket = none ∧ h.timer = none
  state : h.state = (log.filterMap Note.frame?).foldl onFrame s

theorem failures_concat (log : List Note) (x : Note) : failures (log ++ [x]) =
    match x with
    | .up => 0
    | .down => failures log + 1
    | .frame _ => failures log := by
  rw [failures, List.foldl_append]
  rfl

theorem frames_concat (log : List Note) (f : Json.Parsed) :
    (log ++ [Note.frame f]).filterMap Note.frame? = log.filterMap Note.frame? ++ [f] := by
  rw [List.filterMap_append]
  rfl

theorem frames_concat_none (log : List Note) {x : Note} (h : x.frame? = none) :
    (log ++ [x]).filterMap Note.frame? = log.filterMap Note.frame? := by
  rw [List.filterMap_append, List.filterMap_cons_none h, List.filterMap_nil, List.append_nil]

theorem mount_kept (s : σ) : Kept onFrame s [] (Hook.mount s) :=
  ⟨rfl, nofun, fun _ => ⟨rfl, Or.inl rfl⟩, nofun, rfl⟩

variable {onFrame}

theorem Kept.no_timer {s : σ} {log : List Note} {h : Hook σ} (hk : Kept onFrame s log h) (hs : h.socket ≠ none) :
    h.timer = none := by
  cases ht : h.timer with
  | none => rfl
  | some d => exact absurd (hk.timer d ht).1 hs

section

variable {s : σ} {log : List Note} {h h' : Hook σ}

theorem Kept.up (hk : Kept onFrame s log h) (hd : h.disposed = false) (hs : h.socket = some .connecting) :
    Kept onFrame s (log ++ [.up]) { h with socket := some .live, connected := true, retry := 0 } := by
  have ht : h.timer = none := hk.no_timer (by rw [hs]; exact Option.some_ne_none _)
  refine ⟨?_, fun d htd => ?_, fun hd => ⟨(hk.going hd).1, Or.inl rfl⟩, fun hd' => absurd hd' (by simp [hd]), ?_⟩
  · rw [failures_concat]
  · exact absurd htd (by simp [ht])
  · rw [frames_concat_none log rfl]
    exact hk.state

theorem Kept.frame (hk : Kept onFrame s log h) (f : Json.Parsed) :
    Kept onFrame s (log ++ [.frame f]) { h with state := onFrame h.state f } := by
  refine ⟨?_, ?_, hk.going, hk.stopped, ?_⟩
  · rw [failures_concat]
    exact hk.retry
  · rw [failures_concat]
    exact hk.timer
  · rw [frames_concat, List.foldl_append, ← hk.state]
    rfl

theorem Kept.closing (hk : Kept onFrame s log h) : Kept onFrame s log { h with socket := h.socket.map fun _ => .closing } := by
  have hnone : h.socket = none → (h.socket.map fun _ => SocketState.closing) = none := by
    intro hn
    rw [hn]
    rfl
  refine ⟨hk.retry, fun d hd => ⟨hnone (hk.timer d hd).1, (hk.timer d hd).2⟩, fun hd => ?_, fun hd => ?_, hk.state⟩
  · rw [Option.isSome_map]
    exact hk.going hd
  · exact ⟨hnone (hk.stopped hd).1, (hk.stopped hd).2⟩

/-- One more socket is lost, and the timer waits for it too. -/
theorem Kept.down (hk : Kept onFrame s log h) (hd : h.disposed = false) :
    Kept onFrame s (log ++ [.down]) { h with
      socket := none, connected := false, retry := h.retry + 1, timer := some (min (1000 * (h.retry + 1)) 15000) } := by
  have hfail : failures (log ++ [Note.down]) = h.retry + 1 := by rw [failures_concat, hk.retry]
  refine ⟨hfail.symm, fun d ht => ?_, fun hd => ⟨(hk.going hd).1, Or.inr rfl⟩, fun hd' => absurd hd' (by simp [hd]), ?_⟩
  · rw [hfail]
    exact ⟨rfl, Nat.succ_pos _, (Option.some.inj ht).symm⟩
  · rw [frames_concat_none log rfl]
    exact hk.state

/-- A new socket, and no timer. -/
theorem Kept.dialed (hk : Kept onFrame s log h) (hretry : h'.retry = h.retry) (hstate : h'.state = h.state)
    (hm : h'.mounted = true) (hd : h'.disposed = false) (hs : h'.socket = some .connecting) (ht : h'.timer = none) :
    Kept onFrame s log h' := by
  refine ⟨hretry.trans hk.retry, fun d htd => ?_, fun _ => ⟨hm, Or.inl (by rw [hs]; rfl)⟩, fun hd' => ?_, hstate.trans hk.state⟩
  · rw [ht] at htd
    cases htd
  · rw [hd] at hd'
    cases hd'

/-- The effect is disposed of. -/
theorem Kept.dropped (hk : Kept onFrame s log h) (hretry : h'.retry = h.retry) (hstate : h'.state = h.state)
    (hd : h'.disposed = true) (hs : h'.socket = none) (ht : h'.timer = none) : Kept onFrame s log h' := by
  refine ⟨hretry.trans hk.retry, fun d htd => ?_, fun hd' => ?_, fun _ => ⟨hs, ht⟩, hstate.trans hk.state⟩
  · rw [ht] at htd
    cases htd
  · rw [hd] at hd'
    cases hd'

theorem turn_kept (hk : Kept onFrame s log h) (e : HookEvent) :
    Kept onFrame s (log ++ (h.turn onFrame e).2) (h.turn onFrame e).1 := by
  have hstays : Kept onFrame s (log ++ []) h := by
    rw [List.append_nil]
    exact hk
  cases e with
  | opened =>
    rw [Hook.turn]
    split
    · exact hstays
    · rename_i hgo
      rw [not_or, not_not, Bool.not_eq_true] at hgo
      exact hk.up hgo.1 hgo.2
  | message text =>
    rw [Hook.turn]
    split
    · exact hstays
    · cases Json.parse text.toList with
      | none => exact hstays
      | some f => exact hk.frame f
  | error =>
    rw [Hook.turn, List.append_nil]
    exact hk.closing
  | closed =>
    rw [Hook.turn]
    split
    · exact hstays
    · rename_i hgo
      rw [not_or, Bool.not_eq_true] at hgo
      exact hk.down hgo.1
  | fired =>
    rw [Hook.turn]
    split
    · exact hstays
    · rename_i ht
      -- a timer is running, so the effect is not disposed of
      have hgo : h.disposed = false := by
        rw [← Bool.not_eq_true]
        exact fun hd => ht (hk.stopped hd).2
      rw [List.append_nil, Hook.connect, if_neg (by simp [hgo])]
      exact hk.dialed rfl rfl (hk.going hgo).1 hgo rfl rfl
  | token held =>
    rw [Hook.turn]
    split
    · exact hstays
    · rename_i hm
      rw [Bool.not_eq_false] at hm
      rw [apply_ite Prod.snd, apply_ite Prod.fst, ite_self, List.append_nil]
      split
      · rw [Hook.connect, if_neg Bool.false_ne_true]
        exact hk.dialed rfl rfl hm rfl rfl rfl
      · exact hk.dropped rfl rfl rfl rfl rfl
  | unmount =>
    rw [Hook.turn, List.append_nil]
    exact hk.dropped rfl rfl rfl rfl rfl

end

/-- What is known of a hook at the end of any run. -/
theorem run_kept (onFrame : σ → Json.Parsed → σ) (s : σ) (es : List HookEvent) :
    Kept onFrame s (outputs (Hook.turn onFrame) (Hook.mount s) es) (after (Hook.turn onFrame) (Hook.mount s) es) :=
  outputs_inv _ (Kept onFrame s) (fun _ _ e hk => turn_kept hk e) es (mount_kept onFrame s)

/-- Until it is disposed of, a hook has a socket or waits for the next one. -/
theorem hook_reconnects (onFrame : σ → Json.Parsed → σ) (s : σ) (es : List HookEvent) :
    let lost := failures (outputs (Hook.turn onFrame) (Hook.mount s) es)
    let h := after (Hook.turn onFrame) (Hook.mount s) es
    (h.disposed = false → (h.timer = none ↔ h.socket ≠ none)) ∧ (h.disposed = true → h.socket = none ∧ h.timer = none) ∧
      ∀ d, h.timer = some d → 0 < lost ∧ d = min (1000 * lost) 15000 := by
  have hk := run_kept onFrame s es
  refine ⟨fun hd => ⟨fun ht hs => ?_, fun hs => hk.no_timer hs⟩, hk.stopped, fun d ht => (hk.timer d ht).2⟩
  rcases (hk.going hd).2 with h | h
  · rw [hs] at h
    cases h
  · rw [ht] at h
    cases h

end

/-! ## What a frame does -/

/-- What `===` compares of a value, nothing for an object: one read anew is never one read
    before. -/
inductive Primitive where
  | undefined
  | null
  | bool (x : Bool)
  | number (n : Option Number)
  | text (us : Json.Utf16)
  deriving DecidableEq

/-- The latest in front, of `n` at most. -/
def remember (n : Nat) (prev : List Json.Parsed) (x : Json.Parsed) : List Json.Parsed := (x :: prev).take n

def isType (word : String) (frame : Json.Parsed) : Bool :=
  match frame.get? (Json.ofString "type") with
  | some (.str us) => us == Json.ofString word
  | _ => false

structure Pnl where
  last : Json.Parsed
  history : List Json.Parsed

def Pnl.push (prev : Option Pnl) (data : Json.Parsed) : Pnl := ⟨data, remember 40 ((prev.map Pnl.history).getD []) data⟩

/-- The state of `useWebSockets`. -/
structure Feed where
  lastEvent : Option Json.Parsed
  /-- `matches` -/
  grid : List Json.Parsed
  diagnostics : List Json.Parsed
  pnl : Option Pnl

/-- The state of `useAdminWebSockets`. -/
structure Desk where
  lastEvent : Option Json.Parsed
  pnl : Option Pnl
  diagnostics : List Json.Parsed
  commands : List Json.Parsed

def Feed.empty : Feed := ⟨none, [], [], none⟩

def Desk.empty : Desk := ⟨none, none, [], []⟩

section

variable (b : Browser)

def Browser.primitive : Json.Parsed → Option Primitive
  | .null => some .null
  | .bool x => some (.bool x)
  | .num n => some (.number (b.toNumber (some (.num n))))
  | .str us => some (.text us)
  | .arr _ => none
  | .obj _ => none

/-- What `===` compares of a field. -/
def Browser.idOf (key : String) (x : Json.Parsed) : Option Primitive :=
  match x.get? (Json.ofString key) with
  | none => some .undefined
  | some v => b.primitive v

/-- A field that a condition takes for true. -/
def Browser.field (key : String) (x : Json.Parsed) : Option Json.Parsed := (x.get? (Json.ofString key)).filter b.truthy

/-- `frame.data` of a frame of the type; a frame of null throws, and is none. -/
def dataOf (word : String) (frame : Json.Parsed) : Option Json.Parsed :=
  if isType word frame then b.field "data" frame else none

/-- `frame.data` that names its match. -/
def namedOf (word : String) (frame : Json.Parsed) : Option Json.Parsed :=
  (dataOf b word frame).filter fun data => (b.field "match_id" data).isSome

def sameMatch : Json.Parsed → Json.Parsed → Bool := sameBy (b.idOf "match_id")

/-- `onmessage` of `useWebSockets`. -/
def Feed.onFrame (s : Feed) (frame : Json.Parsed) : Feed :=
  let s := { s with lastEvent := some frame }
  match namedOf b "matches:live" frame with
  | some data => { s with grid := touch (sameMatch b) 40 s.grid data }
  | none =>
    match namedOf b "diagnostics:events" frame with
    | some data => { s with diagnostics := remember 60 s.diagnostics data }
    | none =>
      match dataOf b "execution:pnl" frame with
      | some data => { s with pnl := some (Pnl.push s.pnl data) }
      | none => s

/-- `onmessage` of `useAdminWebSockets`. -/
def Desk.onFrame (s : Desk) (frame : Json.Parsed) : Desk :=
  let s := { s with lastEvent := some frame }
  match dataOf b "execution:pnl" frame with
  | some data => { s with pnl := some (Pnl.push s.pnl data) }
  | none =>
    match namedOf b "diagnostics:events" frame with
    | some data => { s with diagnostics := remember 60 s.diagnostics data }
    | none =>
      match dataOf b "execution:commands" frame with
      | some data => { s with commands := remember 60 s.commands data }
      | none => s

/-! ## What is shown -/

/-- The last PnL frame, and the 40 latest. -/
def pnlShown (log : List Json.Parsed) : Option Pnl := log.getLast?.map fun x => ⟨x, log.reverse.take 40⟩

structure Feed.Shows (frames : List Json.Parsed) (s : Feed) : Prop where
  lastEvent : s.lastEvent = frames.getLast?
  grid : s.grid = (newest (sameMatch b) (frames.filterMap (namedOf b "matches:live"))).take 40
  diagnostics : s.diagnostics = (frames.filterMap (namedOf b "diagnostics:events")).reverse.take 60
  pnl : s.pnl = pnlShown (frames.filterMap (dataOf b "execution:pnl"))

structure Desk.Shows (frames : List Json.Parsed) (s : Desk) : Prop where
  lastEvent : s.lastEvent = frames.getLast?
  pnl : s.pnl = pnlShown (frames.filterMap (dataOf b "execution:pnl"))
  diagnostics : s.diagnostics = (frames.filterMap (namedOf b "diagnostics:events")).reverse.take 60
  commands : s.commands = (frames.filterMap (dataOf b "execution:commands")).reverse.take 60

/-- The frames a hook has heard in a run. -/
def heard {σ : Type} (onFrame : σ → Json.Parsed → σ) (s : σ) (es : List HookEvent) : List Json.Parsed :=
  (outputs (Hook.turn onFrame) (Hook.mount s) es).filterMap Note.frame?

theorem isType_unique {word other : String} {frame : Json.Parsed} (h : isType word frame = true) (hne : word ≠ other) :
    isType other frame = false := by
  unfold isType at h ⊢
  split at h
  · rename_i us hus
    simp only [beq_iff_eq, beq_eq_false_iff_ne] at h ⊢
    rw [h]
    exact fun he => hne (Json.ofString_inj.mp he)
  · cases h

theorem dataOf_type {word : String} {frame data : Json.Parsed} (h : dataOf b word frame = some data) :
    isType word frame = true := by
  by_contra hn
  rw [dataOf, if_neg hn] at h
  cases h

theorem dataOf_unique {word other : String} {frame data : Json.Parsed} (h : dataOf b word frame = some data)
    (hne : word ≠ other) : dataOf b other frame = none := by
  rw [dataOf, isType_unique (dataOf_type b h) hne]
  rfl

theorem namedOf_data {word : String} {frame data : Json.Parsed} (h : namedOf b word frame = some data) :
    dataOf b word frame = some data := (Option.filter_eq_some_iff.mp h).1

theorem namedOf_none {word : String} {frame : Json.Parsed} (h : dataOf b word frame = none) : namedOf b word frame = none := by
  rw [namedOf, h]
  rfl

theorem concat_some {f : Json.Parsed → Option Json.Parsed} (frames : List Json.Parsed) {x y : Json.Parsed} (h : f x = some y) :
    (frames ++ [x]).filterMap f = frames.filterMap f ++ [y] := by
  rw [List.filterMap_append, List.filterMap_cons_some h, List.filterMap_nil]

theorem concat_none {f : Json.Parsed → Option Json.Parsed} (frames : List Json.Parsed) {x : Json.Parsed} (h : f x = none) :
    (frames ++ [x]).filterMap f = frames.filterMap f := by
  rw [List.filterMap_append, List.filterMap_cons_none h, List.filterMap_nil, List.append_nil]

theorem remember_concat (n : Nat) (log : List Json.Parsed) (x : Json.Parsed) :
    remember n (log.reverse.take n) x = (log ++ [x]).reverse.take n := by
  rw [remember, List.reverse_append, List.reverse_singleton, List.singleton_append]
  cases n with
  | zero => rfl
  | succ n => rw [List.take_succ_cons, List.take_succ_cons, List.take_take, Nat.min_eq_left (Nat.le_succ n)]

theorem pnl_concat (log : List Json.Parsed) (x : Json.Parsed) :
    some (Pnl.push (pnlShown log) x) = pnlShown (log ++ [x]) := by
  have hhistory : ((pnlShown log).map Pnl.history).getD [] = log.reverse.take 40 := by
    cases log using List.reverseRecOn with
    | nil => rfl
    | append_singleton log y => simp [pnlShown]
  rw [Pnl.push, hhistory, remember_concat, pnlShown, List.getLast?_concat]
  rfl

theorem feed_step {frames : List Json.Parsed} {s : Feed} (h : s.Shows b frames) (frame : Json.Parsed) :
    (s.onFrame b frame).Shows b (frames ++ [frame]) := by
  have hlast : (frames ++ [frame]).getLast? = some frame := List.getLast?_concat
  cases hm : namedOf b "matches:live" frame with
  | some data =>
    have hdata := namedOf_data b hm
    have hd : namedOf b "diagnostics:events" frame = none := namedOf_none b (dataOf_unique b hdata (by decide))
    have hp : dataOf b "execution:pnl" frame = none := dataOf_unique b hdata (by decide)
    simp only [Feed.onFrame, hm]
    refine ⟨hlast.symm, ?_, ?_, ?_⟩
    · rw [concat_some frames hm, h.grid]
      exact touch_take (sameBy_kinds _) 40 _ data
    · rw [concat_none frames hd, h.diagnostics]
    · rw [concat_none frames hp, h.pnl]
  | none =>
    have hgrid : (frames ++ [frame]).filterMap (namedOf b "matches:live") = frames.filterMap (namedOf b "matches:live") :=
      concat_none frames hm
    cases hd : namedOf b "diagnostics:events" frame with
    | some data =>
      have hp : dataOf b "execution:pnl" frame = none := dataOf_unique b (namedOf_data b hd) (by decide)
      simp only [Feed.onFrame, hm, hd]
      refine ⟨hlast.symm, by rw [hgrid, h.grid], ?_, ?_⟩
      · rw [concat_some frames hd, h.diagnostics]
        exact remember_concat 60 _ data
      · rw [concat_none frames hp, h.pnl]
    | none =>
      have hdiag : (frames ++ [frame]).filterMap (namedOf b "diagnostics:events") =
          frames.filterMap (namedOf b "diagnostics:events") := concat_none frames hd
      cases hp : dataOf b "execution:pnl" frame with
      | some data =>
        simp only [Feed.onFrame, hm, hd, hp]
        refine ⟨hlast.symm, by rw [hgrid, h.grid], by rw [hdiag, h.diagnostics], ?_⟩
        rw [concat_some frames hp, h.pnl]
        exact pnl_concat _ data
      | none =>
        simp only [Feed.onFrame, hm, hd, hp]
        refine ⟨hlast.symm, by rw [hgrid, h.grid], by rw [hdiag, h.diagnostics], ?_⟩
        rw [concat_none frames hp, h.pnl]

theorem desk_step {frames : List Json.Parsed} {s : Desk} (h : s.Shows b frames) (frame : Json.Parsed) :
    (s.onFrame b frame).Shows b (frames ++ [frame]) := by
  have hlast : (frames ++ [frame]).getLast? = some frame := List.getLast?_concat
  cases hp : dataOf b "execution:pnl" frame with
  | some data =>
    have hd : namedOf b "diagnostics:events" frame = none := namedOf_none b (dataOf_unique b hp (by decide))
    have hc : dataOf b "execution:commands" frame = none := dataOf_unique b hp (by decide)
    simp only [Desk.onFrame, hp]
    refine ⟨hlast.symm, ?_, ?_, ?_⟩
    · rw [concat_some frames hp, h.pnl]
      exact pnl_concat _ data
    · rw [concat_none frames hd, h.diagnostics]
    · rw [concat_none frames hc, h.commands]
  | none =>
    have hpnl : (frames ++ [frame]).filterMap (dataOf b "execution:pnl") = frames.filterMap (dataOf b "execution:pnl") :=
      concat_none frames hp
    cases hd : namedOf b "diagnostics:events" frame with
    | some data =>
      have hc : dataOf b "execution:commands" frame = none := dataOf_unique b (namedOf_data b hd) (by decide)
      simp only [Desk.onFrame, hp, hd]
      refine ⟨hlast.symm, by rw [hpnl, h.pnl], ?_, ?_⟩
      · rw [concat_some frames hd, h.diagnostics]
        exact remember_concat 60 _ data
      · rw [concat_none frames hc, h.commands]
    | none =>
      have hdiag : (frames ++ [frame]).filterMap (namedOf b "diagnostics:events") =
          frames.filterMap (namedOf b "diagnostics:events") := concat_none frames hd
      cases hc : dataOf b "execution:commands" frame with
      | some data =>
        simp only [Desk.onFrame, hp, hd, hc]
        refine ⟨hlast.symm, by rw [hpnl, h.pnl], by rw [hdiag, h.diagnostics], ?_⟩
        rw [concat_some frames hc, h.commands]
        exact remember_concat 60 _ data
      | none =>
        simp only [Desk.onFrame, hp, hd, hc]
        refine ⟨hlast.symm, by rw [hpnl, h.pnl], by rw [hdiag, h.diagnostics], ?_⟩
        rw [concat_none frames hc, h.commands]

theorem feed_folds (frames : List Json.Parsed) : (frames.foldl (Feed.onFrame b) Feed.empty).Shows b frames := by
  induction frames using List.reverseRecOn with
  | nil => exact ⟨rfl, rfl, rfl, rfl⟩
  | append_singleton frames frame ih =>
    rw [List.foldl_append]
    exact feed_step b ih frame

/-- A match shown is the last that was heard of it. -/
theorem Feed.Shows.last_heard {frames : List Json.Parsed} {s : Feed} (h : s.Shows b frames) {data : Json.Parsed}
    (hdata : data ∈ s.grid) :
    ∃ pre post, frames.filterMap (namedOf b "matches:live") = pre ++ data :: post ∧
      ∀ later ∈ post, ¬ sameMatch b data later = true := by
  rw [h.grid] at hdata
  exact (mem_newest (sameBy_kinds _)).mp (List.mem_of_mem_take hdata)

theorem desk_folds (frames : List Json.Parsed) : (frames.foldl (Desk.onFrame b) Desk.empty).Shows b frames := by
  induction frames using List.reverseRecOn with
  | nil => exact ⟨rfl, rfl, rfl, rfl⟩
  | append_singleton frames frame ih =>
    rw [List.foldl_append]
    exact desk_step b ih frame

/-- What the public page shows of the frames it has heard, over all its sockets. -/
theorem feed_shows (es : List HookEvent) :
    (after (Hook.turn (Feed.onFrame b)) (Hook.mount Feed.empty) es).state.Shows b (heard (Feed.onFrame b) Feed.empty es) := by
  rw [(run_kept (Feed.onFrame b) Feed.empty es).state]
  exact feed_folds b _

/-- What the admin page shows, over all its sockets and tokens. -/
theorem desk_shows (es : List HookEvent) :
    (after (Hook.turn (Desk.onFrame b)) (Hook.mount Desk.empty) es).state.Shows b (heard (Desk.onFrame b) Desk.empty es) := by
  rw [(run_kept (Desk.onFrame b) Desk.empty es).state]
  exact desk_folds b _

end

end CasuyaLive.Dashboard
