/-
  CasuyaLive.Analytics.PositionGate — the single-position gate (analytics-engine-py,
  src/position_gate.py), and what a log of its use allows.

  `Act` is what the workers do to the gate and to the outgoing channels, each act with the
  place of its frame in the queue. `Clear`: the act is in step with the queue. A position
  is taken only when it is free and by a frame behind every release of its match; a release
  comes after no position of a frame behind it; a command has its own position and no
  release ahead of its frame came after it.

  `one_command`: in a log of clear acts, the frames between two releases of the match in
  queue order send one command a market at most.
-/

import CasuyaLive.Lib.History
import CasuyaLive.Analytics.Diagnostics

namespace CasuyaLive.Analytics

open CasuyaLive.Lib

/-- The open positions and their sides, by match and market. -/
abbrev Gate := Table (String × String) String

namespace Gate

def tryAcquire (g : Gate) (m market side : String) : Gate × Bool :=
  if (g.get? (m, market)).isSome then (g, false) else (g.set (m, market) side, true)

/-- Close every position of the match. -/
def release (g : Gate) (m : String) : Gate := g.filter fun key => key.1 != m

theorem tryAcquire_free {g : Gate} {m market : String} (h : g.get? (m, market) = none) (side : String) :
    g.tryAcquire m market side = (g.set (m, market) side, true) := by
  simp [tryAcquire, h]

/-- Claimed or not, the position is open afterwards. -/
theorem tryAcquire_holds (g : Gate) (m market side : String) :
    ((g.tryAcquire m market side).1.get? (m, market)).isSome = true := by
  unfold tryAcquire
  split
  · assumption
  · simp

theorem tryAcquire_keeps {g : Gate} {key : String × String} (h : (g.get? key).isSome = true) (m market side : String) :
    ((g.tryAcquire m market side).1.get? key).isSome = true := by
  unfold tryAcquire
  split
  · exact h
  · simp only [Table.get?_set]
    split
    · rfl
    · exact h

end Gate

inductive Act where
  | acquired (k : Nat) (m market side : String)
  | released (k : Nat) (m : String)
  | command (k : Nat) (m market side : String)
  | diagnostic (k : Nat) (record : DiagnosticRecord)
  deriving DecidableEq

def applyAct (g : Gate) : Act → Gate
  | .acquired _ m market side => (g.tryAcquire m market side).1
  | .released _ m => g.release m
  | .command _ _ _ _ => g
  | .diagnostic _ _ => g

/-- The gate after the log. -/
def gateOf (log : List Act) : Gate := log.foldl applyAct Table.empty

theorem gateOf_append (log more : List Act) : gateOf (log ++ more) = more.foldl applyAct (gateOf log) := List.foldl_append

/-- A position stays open until its match is released. -/
theorem held_until_released {m market : String} (log : List Act) : ∀ {g : Gate}, (g.get? (m, market)).isSome = true →
    (∀ r, Act.released r m ∉ log) → ((log.foldl applyAct g).get? (m, market)).isSome = true := by
  induction log with
  | nil => intro g h _; exact h
  | cons a log ih =>
    intro g h hno
    refine ih ?_ fun r hr => hno r (List.mem_cons_of_mem _ hr)
    cases a with
    | acquired k m' market' side => exact Gate.tryAcquire_keeps h m' market' side
    | released k m' =>
      have hne : m ≠ m' := by
        intro e
        subst e
        exact hno k List.mem_cons_self
      simpa [applyAct, Gate.release, Table.get?_filter, hne] using h
    | command k m' market' side => exact h
    | diagnostic k record => exact h

/-! ## Logs in step with the queue -/

def isAcquired (k : Nat) (m market : String) : Act → Bool
  | .acquired k' m' market' _ => k' == k && m' == m && market' == market
  | .released _ _ => false
  | .command _ _ _ _ => false
  | .diagnostic _ _ => false

def isCommand (k : Nat) (m market : String) : Act → Bool
  | .command k' m' market' _ => k' == k && m' == m && market' == market
  | .acquired _ _ _ _ => false
  | .released _ _ => false
  | .diagnostic _ _ => false

/-- A command for the market from a frame between the places `lo` and `hi`. -/
def commandWithin (lo hi : Nat) (m market : String) : Act → Bool
  | .command k m' market' _ => decide (lo < k) && decide (k < hi) && m' == m && market' == market
  | .acquired _ _ _ _ => false
  | .released _ _ => false
  | .diagnostic _ _ => false

def Clear (log : List Act) : Act → Prop
  | .acquired k m market _ => (gateOf log).get? (m, market) = none ∧ ∀ r, Act.released r m ∈ log → r < k
  | .released r m => ∀ k market side, Act.acquired k m market side ∈ log → k < r
  | .command k m market _ =>
    log.countP (isCommand k m market) < log.countP (isAcquired k m market) ∧ ∀ r, Act.released r m ∈ log → r < k
  | .diagnostic _ _ => True

theorem mem_of_isAcquired {k : Nat} {m market : String} {log : List Act} (h : 0 < log.countP (isAcquired k m market)) :
    ∃ side, Act.acquired k m market side ∈ log := by
  obtain ⟨a, ha, hk⟩ := List.countP_pos_iff.mp h
  cases a with
  | acquired k' m' market' side =>
    simp only [isAcquired, Bool.and_eq_true, beq_iff_eq] at hk
    obtain ⟨⟨rfl, rfl⟩, rfl⟩ := hk
    exact ⟨side, ha⟩
  | released k' m' => cases hk
  | command k' m' market' side => cases hk
  | diagnostic k' record => cases hk

/-- Between two claims of one position its match is released, by a frame between theirs. -/
theorem released_between {log : List Act} (h : Each Clear log) {pre post : List Act} {k k' : Nat}
    {m market side side' : String} (he : log = pre ++ .acquired k m market side :: post)
    (hm : Act.acquired k' m market side' ∈ post) : ∃ r, Act.released r m ∈ post ∧ k < r ∧ r < k' := by
  obtain ⟨mid, rest, rfl⟩ := List.append_of_mem hm
  obtain ⟨hfree, hbehind⟩ := h (pre ++ .acquired k m market side :: mid) (.acquired k' m market side') rest (by rw [he]; simp)
  have hexists : ∃ r, Act.released r m ∈ mid := by
    by_contra hno
    have hheld := Gate.tryAcquire_holds (gateOf pre) m market side
    have := held_until_released mid hheld fun r hr => hno ⟨r, hr⟩
    rw [gateOf_append, List.foldl_cons, applyAct] at hfree
    rw [hfree] at this
    cases this
  obtain ⟨r, hr⟩ := hexists
  obtain ⟨a, b, rfl⟩ := List.append_of_mem hr
  refine ⟨r, by simp, ?_, hbehind r (by simp)⟩
  exact h (pre ++ .acquired k m market side :: a) (.released r m) (b ++ .acquired k' m market side' :: rest)
    (by rw [he]; simp) k market side (by simp)

theorem acquired_once {log : List Act} (h : Each Clear log) (k : Nat) (m market : String) :
    log.countP (isAcquired k m market) ≤ 1 := by
  rw [List.countP_eq_length_filter]
  apply Each.at_most_one
  intro pre x post he hx y hy
  by_contra hyes
  simp only [Bool.not_eq_false] at hyes
  obtain ⟨side, hside⟩ := mem_of_isAcquired (List.countP_pos_iff.mpr ⟨x, List.mem_singleton_self x, hx⟩)
  obtain ⟨side', hside'⟩ := mem_of_isAcquired (List.countP_pos_iff.mpr ⟨y, List.mem_singleton_self y, hyes⟩)
  rw [← List.mem_singleton.mp hside] at he
  rw [← List.mem_singleton.mp hside'] at hy
  obtain ⟨a, b, rfl⟩ := List.append_of_mem hy
  rw [List.append_assoc, List.cons_append] at he
  have hin : Act.acquired k m market side ∈ b ++ .acquired k m market side :: post := by simp
  obtain ⟨r, -, h1, h2⟩ := released_between h he hin
  omega

/-- Two frames that both claimed a position stand on two sides of a release in the queue. -/
theorem acquired_apart {log : List Act} (h : Each Clear log) {k k' : Nat} {m market side side' : String} (hne : k ≠ k')
    (hk : Act.acquired k m market side ∈ log) (hk' : Act.acquired k' m market side' ∈ log) :
    ∃ r, Act.released r m ∈ log ∧ (k < r ∧ r < k' ∨ k' < r ∧ r < k) := by
  obtain ⟨pre, post, rfl⟩ := List.append_of_mem hk
  rcases List.mem_append.mp hk' with hin | hin
  · obtain ⟨a, b, rfl⟩ := List.append_of_mem hin
    rw [List.append_assoc, List.cons_append] at h ⊢
    have hin' : Act.acquired k m market side ∈ b ++ .acquired k m market side :: post := by simp
    obtain ⟨r, hr, h1, h2⟩ := released_between h rfl hin'
    exact ⟨r, List.mem_append_right _ (List.mem_cons_of_mem _ hr), Or.inr ⟨h1, h2⟩⟩
  · rcases List.mem_cons.mp hin with he | hin
    · injection he with e
      exact absurd e.symm hne
    · obtain ⟨r, hr, h1, h2⟩ := released_between h rfl hin
      exact ⟨r, List.mem_append_right _ (List.mem_cons_of_mem _ hr), Or.inl ⟨h1, h2⟩⟩

/-- Every command in the log has its position claimed before it. -/
theorem command_acquired {log : List Act} (h : Each Clear log) {k : Nat} {m market side : String}
    (hc : Act.command k m market side ∈ log) : ∃ side', Act.acquired k m market side' ∈ log := by
  obtain ⟨pre, post, rfl, hclear⟩ := h.mem hc
  obtain ⟨side', hs⟩ := mem_of_isAcquired (Nat.lt_of_le_of_lt (Nat.zero_le _) hclear.1)
  exact ⟨side', List.mem_append_left _ hs⟩

/-- Frames with no release of the match between them send one command a market at most. -/
theorem one_command {log : List Act} (h : Each Clear log) (m market : String) (lo hi : Nat)
    (hopen : ∀ r, lo < r → r < hi → Act.released r m ∉ log) : (log.filter (commandWithin lo hi m market)).length ≤ 1 := by
  apply Each.at_most_one
  intro pre x post he hx y hy
  by_contra hyes
  simp only [Bool.not_eq_false] at hyes
  cases x with
  | acquired k m' market' side => cases hx
  | released k m' => cases hx
  | diagnostic k record => cases hx
  | command k m' market' side =>
    cases y with
    | acquired k' m' market' side => cases hyes
    | released k' m' => cases hyes
    | diagnostic k' record => cases hyes
    | command k' m'' market'' side' =>
      simp only [commandWithin, Bool.and_eq_true, decide_eq_true_eq, beq_iff_eq] at hx hyes
      obtain ⟨⟨⟨hlo, hhi⟩, rfl⟩, rfl⟩ := hx
      obtain ⟨⟨⟨hlo', hhi'⟩, rfl⟩, rfl⟩ := hyes
      have hpre : Each Clear pre := by
        rw [he] at h
        exact h.left
      obtain ⟨hcount, -⟩ := h pre _ post he
      by_cases hk : k' = k
      · -- its one claim is used up by the earlier command
        subst hk
        have hone := acquired_once hpre k' m'' market''
        have hused : 0 < pre.countP (isCommand k' m'' market'') := List.countP_pos_iff.mpr ⟨_, hy, by simp [isCommand]⟩
        omega
      · obtain ⟨s₁, h₁⟩ := mem_of_isAcquired (Nat.lt_of_le_of_lt (Nat.zero_le _) hcount)
        obtain ⟨s₂, h₂⟩ := command_acquired hpre hy
        obtain ⟨r, hr, hbetween⟩ := acquired_apart hpre hk h₂ h₁
        refine hopen r (by omega) (by omega) ?_
        rw [he]
        exact List.mem_append_left _ hr

end CasuyaLive.Analytics
