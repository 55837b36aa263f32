/-
  CasuyaLive.Ingest.Cache — what the ingestor keeps in Redis (data-ingestion-go,
  internal/cache/redis.go: `PublishMatch`, `Close`, `winnerOf`): a hash for each match with a
  day's expiry, the stream of all frames, and the channel that wakes the analytics engine.

  The four commands are one transaction. Its reply may be lost after it took effect, and it
  may fail without effect; a command that fails inside the transaction is left out. Times are
  in milliseconds on the clock of Redis. The text of a frame is a parameter, and so is the
  shortest decimal of the possession, which go-redis prints.

  HSET merges: a field that a frame does not carry keeps its value. `hget_newest`: over any
  run a field of a match hash reads what the newest frame that has it wrote, of those since
  the match was last silent for more than a day. `run_holds`: the stream and the channel carry
  the frames of the executed calls in order, every acknowledged one among them
  (`acknowledged_executed`).
-/

import Mathlib.Data.Rat.Floor
import CasuyaLive.Lib.Lease
import CasuyaLive.Lib.Run
import CasuyaLive.Ingest.Stream

namespace CasuyaLive.Ingest.Cache

open CasuyaLive.Lib CasuyaLive.Ingest.Stream

def market1H1X2 : String := "1H_1X2"
def market2H1X2 : String := "2H_1X2"

def hashKeyPrefix : String := "match:"

/-- A day in milliseconds. -/
def day : Int := 24 * 60 * 60 * 1000

/-- `strconv.FormatFloat(x, 'f', 2, 64)`: a tie goes to the even digit. -/
def formatFloat2 (x : ℚ) : String :=
  let scaled := |x| * 100
  let n := ⌊scaled⌋.toNat
  let n := if scaled - n < 1 / 2 then n else if 1 / 2 < scaled - n then n + 1 else n + n % 2
  (if x < 0 then "-" else "") ++ Text.itoa (n / 100 : ℕ) ++ "." ++ String.ofList [(n / 10 % 10).digitChar, (n % 10).digitChar]

/-- The side the bookmaker favours. -/
def winnerOf (m : Market) : String :=
  if m.odds.home ≤ m.odds.draw ∧ m.odds.home ≤ m.odds.away then "home"
  else if m.odds.away ≤ m.odds.draw then "away"
  else "draw"

abbrev Fields := Table String String

def marketFields (fields : Fields) (x : String × Market) : Fields :=
  let fields := fields.set ("odds_" ++ x.1 ++ "_home") (formatFloat2 x.2.odds.home)
  let fields := fields.set ("odds_" ++ x.1 ++ "_draw") (formatFloat2 x.2.odds.draw)
  let fields := fields.set ("odds_" ++ x.1 ++ "_away") (formatFloat2 x.2.odds.away)
  if x.1 = market1H1X2 ∨ x.1 = market2H1X2 then fields.set ("winner_" ++ x.1) (winnerOf x.2) else fields

/-- `time.Time.Unix` and `UnixMilli` of an instant in nanoseconds. -/
def unix (t : Int) : Int := t / 1000000000
def unixMilli (t : Int) : Int := t / 1000000

section

variable (shortest : ℚ → String)

def baseFields (m : Match) : Fields :=
  [("sport", m.sport), ("league", m.league), ("home_team", m.homeTeam), ("away_team", m.awayTeam),
    ("kickoff", Text.itoa (unix m.kickoff)), ("clock", m.clock), ("score_home", Text.itoa m.score.home),
    ("score_away", Text.itoa m.score.away), ("shots", Text.itoa m.shots), ("shots_on_target", Text.itoa m.shotsOnTarget),
    ("dangerous_attacks", Text.itoa m.dangerousAttacks), ("possession_home", shortest m.possessionHome),
    ("received_at", Text.itoa (unixMilli m.receivedAt)), ("markets_total", Text.itoa m.markets.entries.length)].foldl
    (fun fields x => fields.set x.1 x.2) Table.empty

/-- What HSET sends for a frame. -/
def hashFields (m : Match) : Fields := m.markets.entries.foldl marketFields (baseFields shortest m)

def hset (h : Fields) (m : Match) : Fields := (hashFields shortest m).entries.foldl (fun h x => h.set x.1 x.2) h

theorem hset_get? (h : Fields) (m : Match) (name : String) :
    (hset shortest h m).get? name = ((hashFields shortest m).get? name).or (h.get? name) := by
  rw [hset, Table.foldl_at (hashFields shortest m) _ (fun t : Fields => t.get? name) name fun _ v => some v]
  · cases (hashFields shortest m).get? name <;> rfl
  · intro t x hx
    exact Table.get?_set_ne _ _ fun e => hx e.symm
  · intro t v
    exact Table.get?_set_same _ _ _

/-- A field after many frames is the newest one's that has it. -/
theorem foldl_hset_get? (ms : List Match) (h : Fields) (name : String) :
    (ms.foldl (hset shortest) h).get? name =
      (ms.reverse.findSome? fun m => (hashFields shortest m).get? name).or (h.get? name) := by
  induction ms generalizing h with
  | nil => rfl
  | cons m ms ih =>
    rw [List.foldl_cons, ih, hset_get?, List.reverse_cons, List.findSome?_append, List.findSome?_singleton, Option.or_assoc]

end

/-! ## The fields of every frame -/

theorem marketFields_get? (fields : Fields) (x : String × Market) {name : String} (ho : name.toList.head? ≠ some 'o')
    (hw : name.toList.head? ≠ some 'w') : (marketFields fields x).get? name = fields.get? name := by
  have hodds : ∀ side : String, name ≠ "odds_" ++ x.1 ++ side := by
    rintro side rfl
    simp at ho
  have hwinner : name ≠ "winner_" ++ x.1 := by
    rintro rfl
    simp at hw
  simp only [marketFields]
  split <;> simp [hodds, hwinner]

/-- The markets write under names of their own. -/
theorem hashFields_base (shortest : ℚ → String) (m : Match) {name : String} (ho : name.toList.head? ≠ some 'o')
    (hw : name.toList.head? ≠ some 'w') : (hashFields shortest m).get? name = (baseFields shortest m).get? name := by
  rw [hashFields]
  generalize baseFields shortest m = fields
  induction m.markets.entries generalizing fields with
  | nil => rfl
  | cons x l ih => rw [List.foldl_cons, ih, marketFields_get? fields x ho hw]

/-! ## The store -/

structure StreamEntry where
  matchID : String
  ts : Int
  data : String
  deriving DecidableEq

structure Redis where
  hashes : Table String (Lease Fields)
  stream : List StreamEntry
  published : List String
  done : Bool

def new : Redis := ⟨Table.empty, [], [], false⟩

inductive PublishError where
  | errClosed
  | marshalMatch
  | redis
  deriving DecidableEq

/-- Whether the reply of a transaction arrives, gets lost, or the transaction fails. -/
inductive Fate where
  | answered
  | lost
  | failed
  deriving DecidableEq

/-- HGET of a match hash. -/
def hget (r : Redis) (now : Int) (matchID name : String) : Option String :=
  (Lease.read now (r.hashes.get? (hashKeyPrefix ++ matchID))).bind (·.get? name)

section

variable (render : Match → String) (shortest : ℚ → String)

/-- Whether `time.Time.MarshalJSON` takes the instant: its year has four digits. -/
def inYears (t : Int) : Bool := -62167219200 ≤ unix t && unix t < 253402300800

/-- `json.Marshal` of a match. -/
def marshal (m : Match) : Option String := if inYears m.kickoff && inYears m.receivedAt then some (render m) else none

/-- HSET and EXPIRE. -/
def hsetExpire (hashes : Table String (Lease Fields)) (w : Int × Match) : Table String (Lease Fields) :=
  let key := hashKeyPrefix ++ w.2.matchID
  hashes.set key (Lease.write Table.empty day (hset shortest) (hashes.get? key) w)

/-- The transaction. -/
def exec (r : Redis) (now : Int) (m : Match) (frame : String) : Redis :=
  { r with
    hashes := hsetExpire shortest r.hashes (now, m)
    stream := r.stream ++ [⟨m.matchID, unixMilli m.receivedAt, frame⟩]
    published := r.published ++ [frame] }

def publishMatch (r : Redis) (now : Int) (m : Match) (fate : Fate) : Redis × Option PublishError :=
  if r.done then (r, some .errClosed)
  else
    match marshal render m with
    | none => (r, some .marshalMatch)
    | some frame =>
      match fate with
      | .answered => (exec shortest r now m frame, none)
      | .lost => (exec shortest r now m frame, some .redis)
      | .failed => (r, some .redis)

def close (r : Redis) : Redis := { r with done := true }

inductive Event where
  | publish (now : Int) (m : Match) (fate : Fate)
  | close

/-- Each call with its answer. -/
def step (r : Redis) : Event → Redis × List (Match × Option PublishError)
  | .publish now m fate =>
    let p := publishMatch render shortest r now m fate
    (p.1, [(m, p.2)])
  | .close => (close r, [])

/-- The calls whose transaction took effect, with its time. -/
def executed : List Event → List (Int × Match)
  | [] => []
  | .close :: _ => []
  | .publish now m fate :: es => if (marshal render m).isSome && fate != .failed then (now, m) :: executed es else executed es

/-- The calls that returned nil. -/
def acknowledged (answers : List (Match × Option PublishError)) : List Match :=
  (answers.filter (·.2.isNone)).map (·.1)

/-- The executed calls for one match. -/
def writesOf (matchID : String) (es : List Event) : List (Int × Match) :=
  (executed render es).filter (·.2.matchID = matchID)

/-! ## Runs -/

theorem after_close (r : Redis) (es : List Event) (h : r.done = true) : after (step render shortest) r es = r := by
  induction es with
  | nil => rfl
  | cons e es ih =>
    have hstep : (step render shortest r e).1 = r := by
      cases e with
      | publish now m fate => simp [step, publishMatch, h]
      | close =>
        obtain ⟨hashes, stream, published, done⟩ := r
        cases h
        rfl
    rw [after_cons, hstep, ih]

/-- What a frame adds to the stream. -/
def entryOf (w : Int × Match) : Option StreamEntry :=
  (marshal render w.2).map fun frame => ⟨w.2.matchID, unixMilli w.2.receivedAt, frame⟩

/-- The store after a run of an open client: the executed calls, one after another. -/
structure Holds (r r' : Redis) (ws : List (Int × Match)) : Prop where
  hashes : r'.hashes = ws.foldl (hsetExpire shortest) r.hashes
  stream : r'.stream = r.stream ++ ws.filterMap (entryOf render)
  published : r'.published = r.published ++ ws.filterMap fun w => marshal render w.2

theorem run_holds (es : List Event) {r : Redis} (h : r.done = false) :
    Holds render shortest r (after (step render shortest) r es) (executed render es) := by
  induction es generalizing r with
  | nil => exact ⟨rfl, by simp [executed], by simp [executed]⟩
  | cons e es ih =>
    cases e with
    | close =>
      rw [after_cons, after_close render shortest _ es rfl]
      exact ⟨rfl, by simp [executed, step, close], by simp [executed, step, close]⟩
    | publish now m fate =>
      rw [after_cons]
      cases hm : marshal render m with
      | none =>
        have hstep : (step render shortest r (.publish now m fate)).1 = r := by simp [step, publishMatch, h, hm]
        have hexec : executed render (.publish now m fate :: es) = executed render es := by simp [executed, hm]
        rw [hstep, hexec]
        exact ih h
      | some frame =>
        by_cases hf : fate = .failed
        · have hstep : (step render shortest r (.publish now m fate)).1 = r := by simp [step, publishMatch, h, hm, hf]
          have hexec : executed render (.publish now m fate :: es) = executed render es := by simp [executed, hf]
          rw [hstep, hexec]
          exact ih h
        · have hstep : (step render shortest r (.publish now m fate)).1 = exec shortest r now m frame := by
            cases fate <;> simp [step, publishMatch, h, hm] at hf ⊢
          have hexec : executed render (.publish now m fate :: es) = (now, m) :: executed render es := by
            simp [executed, hm, hf]
          obtain ⟨h1, h2, h3⟩ := ih (r := exec shortest r now m frame) h
          rw [hstep, hexec]
          refine ⟨h1, ?_, ?_⟩
          · rw [h2, List.filterMap_cons_some (by rw [entryOf, hm]; rfl), exec, List.append_assoc]
            rfl
          · rw [h3, List.filterMap_cons_some (f := fun w : Int × Match => marshal render w.2) hm, exec, List.append_assoc]
            rfl

theorem key_inj (a b : String) : hashKeyPrefix ++ a = hashKeyPrefix ++ b ↔ a = b := by
  refine ⟨fun h => ?_, fun h => by rw [h]⟩
  have hl := congrArg String.toList h
  rw [String.toList_append, String.toList_append] at hl
  exact String.toList_inj.mp (List.append_cancel_left hl)

/-- One key of the hashes takes the writes of its own match alone. -/
theorem foldl_hsetExpire (ws : List (Int × Match)) (hashes : Table String (Lease Fields)) (id : String) :
    (ws.foldl (hsetExpire shortest) hashes).get? (hashKeyPrefix ++ id) =
      (ws.filter (·.2.matchID = id)).foldl (fun c w => some (Lease.write Table.empty day (hset shortest) c w))
        (hashes.get? (hashKeyPrefix ++ id)) := by
  induction ws generalizing hashes with
  | nil => rfl
  | cons w ws ih =>
    rw [List.foldl_cons, ih, hsetExpire, Table.get?_set]
    by_cases hw : w.2.matchID = id
    · rw [if_pos (by rw [hw]), List.filter_cons_of_pos (by simpa using hw), List.foldl_cons, hw]
    · rw [if_neg fun e => hw ((key_inj _ _).mp e).symm, List.filter_cons_of_neg (by simpa using hw)]

/-- What a match hash holds at a time: the frames of its life, merged. -/
theorem hash_of_life (es : List Event) (now : Int) (id : String) :
    Lease.read now ((after (step render shortest) new es).hashes.get? (hashKeyPrefix ++ id)) =
      if Lease.life day now (writesOf render id es) = [] then none
      else some ((Lease.life day now (writesOf render id es)).foldl (hset shortest) Table.empty) := by
  rw [(run_holds render shortest es rfl).hashes, foldl_hsetExpire, new, Table.get?_empty]
  exact Lease.read_writes Table.empty day (hset shortest) now (writesOf render id es)

/-- In every state of a run, at any time: a field reads what the newest frame that has it
    wrote, of those since the match was last silent for more than a day. -/
theorem hget_newest (es : List Event) (now : Int) (id name : String) :
    hget (after (step render shortest) new es) now id name =
      (Lease.life day now (writesOf render id es)).reverse.findSome? fun m => (hashFields shortest m).get? name := by
  rw [hget, hash_of_life]
  split
  · rename_i hl
    rw [hl]
    rfl
  · rw [Option.bind_some, foldl_hset_get?, Table.get?_empty, Option.or_none]

/-- The match's last executed frame, for a day. -/
def latest (es : List Event) (now : Int) (id : String) : Option Match :=
  (writesOf render id es).getLast?.bind fun w => if w.1 + day < now then none else some w.2

theorem life_getLast (es : List Event) (now : Int) (id : String) :
    (Lease.life day now (writesOf render id es)).getLast? = latest render es now id := by
  rw [latest]
  cases hl : (writesOf render id es).getLast? with
  | none =>
    rw [List.getLast?_eq_none_iff.mp hl]
    rfl
  | some w => exact Lease.life_last hl

/-- A field that every frame carries reads as in the last one. -/
theorem hget_latest (es : List Event) (now : Int) (id name : String) (h : ∀ m, ((hashFields shortest m).get? name).isSome) :
    hget (after (step render shortest) new es) now id name =
      (latest render es now id).bind fun m => (hashFields shortest m).get? name := by
  rw [hget_newest, ← life_getLast, List.getLast?_eq_head?_reverse]
  cases (Lease.life day now (writesOf render id es)).reverse with
  | nil => rfl
  | cons m ms =>
    obtain ⟨v, hv⟩ := Option.isSome_iff_exists.mp (h m)
    rw [List.findSome?_cons, hv, List.head?_cons, Option.bind_some, hv]

theorem writesOf_marshal {es : List Event} {id : String} {w : Int × Match} (h : w ∈ writesOf render id es) :
    (marshal render w.2).isSome = true := by
  have hw := (List.mem_filter.mp h).1
  clear h
  induction es with
  | nil => cases hw
  | cons e es ih =>
    cases e with
    | close => cases hw
    | publish now m fate =>
      simp only [executed] at hw
      split at hw
      · rename_i hok
        rcases List.mem_cons.mp hw with rfl | hw
        · exact (Bool.and_eq_true_iff.mp hok).1
        · exact ih hw
      · exact ih hw

/-- Its times have four-digit years. -/
theorem latest_inYears {es : List Event} {now : Int} {id : String} {m : Match} (h : latest render es now id = some m) :
    inYears m.kickoff = true ∧ inYears m.receivedAt = true := by
  obtain ⟨w, hlast, hw⟩ := Option.bind_eq_some_iff.mp h
  have hm : w.2 = m := by
    split at hw
    · cases hw
    · exact Option.some.inj hw
  have hok := writesOf_marshal render (List.mem_of_getLast? hlast)
  rw [marshal, hm] at hok
  split at hok
  · rename_i hyears
    exact Bool.and_eq_true_iff.mp hyears
  · cases hok

/-! ## The stream and the channel -/

/-- All calls, in order. -/
def calls : List Event → List Match
  | [] => []
  | .close :: es => calls es
  | .publish _ m _ :: es => m :: calls es

theorem executed_calls (es : List Event) : ((executed render es).map (·.2)).Sublist (calls es) := by
  induction es with
  | nil => exact List.Sublist.slnil
  | cons e es ih =>
    cases e with
    | close => exact List.nil_sublist _
    | publish now m fate =>
      simp only [executed, calls]
      split
      · exact ih.cons_cons m
      · exact ih.cons m

theorem answers_closed (es : List Event) {r : Redis} (h : r.done = true) :
    acknowledged (outputs (step render shortest) r es) = [] := by
  induction es generalizing r with
  | nil => rfl
  | cons e es ih =>
    cases e with
    | close => exact ih rfl
    | publish now m fate =>
      have hstep : step render shortest r (.publish now m fate) = (r, [(m, some .errClosed)]) := by
        simp [step, publishMatch, h]
      rw [outputs_cons, hstep]
      exact ih h

/-- A call that returned nil took effect. -/
theorem acknowledged_executed (es : List Event) {r : Redis} (h : r.done = false) :
    (acknowledged (outputs (step render shortest) r es)).Sublist ((executed render es).map (·.2)) := by
  induction es generalizing r with
  | nil => exact List.Sublist.slnil
  | cons e es ih =>
    cases e with
    | close =>
      rw [outputs_cons, step, List.nil_append, answers_closed render shortest es rfl]
      exact List.nil_sublist _
    | publish now m fate =>
      have hdone : (step render shortest r (.publish now m fate)).1.done = false := by
        cases hm : marshal render m <;> cases fate <;> simp [step, publishMatch, exec, h, hm]
      have hrest := ih hdone
      rw [outputs_cons]
      cases hm : marshal render m with
      | none => simpa [acknowledged, step, publishMatch, executed, h, hm] using hrest
      | some frame =>
        cases fate with
        | answered => simpa [acknowledged, step, publishMatch, executed, h, hm] using hrest
        | lost => simpa [acknowledged, step, publishMatch, executed, h, hm] using hrest.cons m
        | failed => simpa [acknowledged, step, publishMatch, executed, h, hm] using hrest

end

end CasuyaLive.Ingest.Cache
