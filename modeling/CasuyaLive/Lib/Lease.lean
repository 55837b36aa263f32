/-
  CasuyaLive.Lib.Lease — a value that is forgotten when nobody writes it for a while (a Redis
  key with EXPIRE). A write works on what is still there, or else on a fresh value, and moves
  the deadline.

  `read_writes`: what is read at a time is the fold of the writes since the last gap longer
  than the lease (`life`), and nothing once such a gap has begun. `life_last`: the last
  write is part of it for as long as the lease.
-/

import Mathlib.Data.List.Infix

namespace CasuyaLive.Lib

structure Lease (σ : Type) where
  value : σ
  deadline : Int
  deriving DecidableEq

namespace Lease

variable {σ α : Type}

def read (now : Int) (c : Option (Lease σ)) : Option σ := c.bind fun l => if l.deadline < now then none else some l.value

variable (fresh : σ) (ttl : Int) (upd : σ → α → σ)

/-- A write at its time. -/
def write (c : Option (Lease σ)) (w : Int × α) : Lease σ := ⟨upd ((read w.1 c).getD fresh) w.2, w.1 + ttl⟩

/-- Newest first, back to the first gap longer than the lease. -/
def alive : Int → List (Int × α) → List α
  | _, [] => []
  | now, w :: ws => if w.1 + ttl < now then [] else w.2 :: alive w.1 ws

/-- The writes that make up the value at `now`, oldest first. -/
def life (now : Int) (ws : List (Int × α)) : List α := (alive ttl now ws.reverse).reverse

theorem life_concat (now : Int) (ws : List (Int × α)) (w : Int × α) :
    life ttl now (ws ++ [w]) = if w.1 + ttl < now then [] else life ttl w.1 ws ++ [w.2] := by
  rw [life, List.reverse_concat, alive]
  split
  · rfl
  · rw [List.reverse_cons, life]

theorem read_write (now : Int) (c : Option (Lease σ)) (w : Int × α) :
    read now (some (write fresh ttl upd c w)) = if w.1 + ttl < now then none else some (upd ((read w.1 c).getD fresh) w.2) := rfl

/-- What is read is the fold over the life. -/
theorem read_writes (now : Int) (ws : List (Int × α)) :
    read now (ws.foldl (fun c w => some (write fresh ttl upd c w)) none) =
      if life ttl now ws = [] then none else some ((life ttl now ws).foldl upd fresh) := by
  induction ws using List.reverseRecOn generalizing now with
  | nil => rfl
  | append_singleton ws w ih =>
    rw [List.foldl_append, List.foldl_cons, List.foldl_nil, read_write, life_concat]
    by_cases hw : w.1 + ttl < now
    · rw [if_pos hw, if_pos hw, if_pos rfl]
    · have hne : life ttl w.1 ws ++ [w.2] ≠ [] := by simp
      rw [if_neg hw, if_neg hw, if_neg hne, ih, List.foldl_append, List.foldl_cons, List.foldl_nil]
      by_cases hl : life ttl w.1 ws = []
      · rw [if_pos hl, hl]
        rfl
      · rw [if_neg hl]
        rfl

variable {ttl}

/-- The last write is part of it for as long as the lease. -/
theorem life_last {now : Int} {ws : List (Int × α)} {w : Int × α} (h : ws.getLast? = some w) :
    (life ttl now ws).getLast? = if w.1 + ttl < now then none else some w.2 := by
  obtain ⟨ws, rfl⟩ := List.getLast?_eq_some_iff.mp h
  rw [life_concat]
  split <;> simp

end Lease

end CasuyaLive.Lib
