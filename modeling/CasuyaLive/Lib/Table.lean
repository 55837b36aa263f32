/-
  CasuyaLive.Lib.Table — finite maps whose keys never repeat, in insertion order (a Go
  map, a Redis hash, a Python dict). Assigning to a key that is there keeps its place;
  a new key goes to the end.

  The entries are a list; the field `nodup` makes a table with a repeated key
  impossible to build, so `mem_iff` (an entry is what its key reads as) needs no
  side condition.
-/

import Mathlib.Data.List.Nodup
import Mathlib.Data.List.Perm.Basic

namespace CasuyaLive.Lib

structure Table (κ ν : Type) where
  entries : List (κ × ν)
  nodup : (entries.map (·.1)).Nodup
  deriving DecidableEq

namespace Table

variable {κ ν : Type}

def empty : Table κ ν := ⟨[], List.nodup_nil⟩

def keys (t : Table κ ν) : List κ := t.entries.map (·.1)

variable [DecidableEq κ]

def get? (t : Table κ ν) (k : κ) : Option ν := (t.entries.find? (·.1 == k)).map (·.2)

/-- Keep the entries whose key passes. -/
def filter (t : Table κ ν) (keep : κ → Bool) : Table κ ν :=
  ⟨t.entries.filter fun x => keep x.1,
    t.nodup.sublist (List.Sublist.map _ List.filter_sublist)⟩

def erase (t : Table κ ν) (k : κ) : Table κ ν := t.filter (· != k)

/-- Several keys at once, as HDEL takes them. -/
def eraseAll (t : Table κ ν) (ks : List κ) : Table κ ν := t.filter (!ks.contains ·)

def mapVal {μ : Type} (f : ν → μ) (t : Table κ ν) : Table κ μ :=
  ⟨t.entries.map fun x => (x.1, f x.2), by
    rw [List.map_map]
    exact t.nodup⟩

def assign (k : κ) (v : ν) : List (κ × ν) → List (κ × ν)
  | [] => [(k, v)]
  | x :: l => if x.1 = k then (k, v) :: l else x :: assign k v l

theorem mem_assign_keys {k a : κ} {v : ν} {l : List (κ × ν)} (h : a ∈ (assign k v l).map (·.1)) :
    a = k ∨ a ∈ l.map (·.1) := by
  induction l with
  | nil => simpa [assign] using h
  | cons x l ih =>
    unfold assign at h
    split at h
    · rename_i e
      simp only [List.map_cons, List.mem_cons] at h ⊢
      exact h.imp_right Or.inr
    · simp only [List.map_cons, List.mem_cons] at h ⊢
      rcases h with h | h
      · exact Or.inr (Or.inl h)
      · exact (ih h).imp_right Or.inr

theorem assign_nodup (k : κ) (v : ν) (l : List (κ × ν)) (h : (l.map (·.1)).Nodup) :
    ((assign k v l).map (·.1)).Nodup := by
  induction l with
  | nil => simp [assign]
  | cons x l ih =>
    simp only [List.map_cons, List.nodup_cons] at h
    unfold assign
    split
    · rename_i e
      subst e
      simpa using h
    · rename_i e
      simp only [List.map_cons, List.nodup_cons]
      refine ⟨fun hm => ?_, ih h.2⟩
      rcases mem_assign_keys hm with hk | hk
      · exact e hk
      · exact h.1 hk

def set (t : Table κ ν) (k : κ) (v : ν) : Table κ ν := ⟨assign k v t.entries, assign_nodup k v _ t.nodup⟩

/-! ## Reading -/

@[simp] theorem get?_empty (k : κ) : (empty : Table κ ν).get? k = none := rfl

theorem find_assign (k a : κ) (v : ν) (l : List (κ × ν)) :
    ((assign k v l).find? (·.1 == a)).map (·.2) = if a = k then some v else (l.find? (·.1 == a)).map (·.2) := by
  induction l with
  | nil => by_cases h : a = k <;> simp [assign, h, Ne.symm]
  | cons x l ih =>
    unfold assign
    split
    · rename_i e
      by_cases h : a = k
      · simp [h]
      · have : ¬ k = a := fun e' => h e'.symm
        simp [h, e, this]
    · rename_i e
      by_cases h : x.1 = a
      · have : ¬ a = k := fun e' => e (h.trans e')
        simp [h, this]
      · have hb : (x.1 == a) = false := by simpa using h
        simp only [List.find?_cons, hb]
        exact ih

theorem get?_set (t : Table κ ν) (k a : κ) (v : ν) : (t.set k v).get? a = if a = k then some v else t.get? a :=
  find_assign k a v t.entries

@[simp] theorem get?_set_same (t : Table κ ν) (k : κ) (v : ν) : (t.set k v).get? k = some v := by simp [get?_set]

@[simp] theorem get?_set_ne (t : Table κ ν) {k a : κ} (v : ν) (h : a ≠ k) : (t.set k v).get? a = t.get? a := by
  simp [get?_set, h]

theorem find_filter (keep : κ → Bool) (a : κ) (l : List (κ × ν)) :
    ((l.filter fun x => keep x.1).find? (·.1 == a)).map (·.2) =
      if keep a then (l.find? (·.1 == a)).map (·.2) else none := by
  induction l with
  | nil => simp
  | cons x l ih =>
    by_cases h : x.1 = a
    · subst h
      by_cases hk : keep x.1 = true
      · simp [hk]
      · simp only [List.filter_cons, hk, Bool.false_eq_true, if_false] at ih ⊢
        exact ih
    · have hb : (x.1 == a) = false := by simpa using h
      by_cases hk : keep x.1 = true
      · simp only [List.filter_cons, hk, if_true, List.find?_cons, hb]; exact ih
      · simp only [List.filter_cons, hk, Bool.false_eq_true, if_false, List.find?_cons, hb]; exact ih

theorem get?_filter (t : Table κ ν) (keep : κ → Bool) (a : κ) :
    (t.filter keep).get? a = if keep a then t.get? a else none := find_filter keep a t.entries

theorem get?_erase (t : Table κ ν) (k a : κ) : (t.erase k).get? a = if a = k then none else t.get? a := by
  by_cases h : a = k <;> simp [erase, get?_filter, h]

@[simp] theorem get?_erase_same (t : Table κ ν) (k : κ) : (t.erase k).get? k = none := by simp [get?_erase]

@[simp] theorem get?_erase_ne (t : Table κ ν) {k a : κ} (h : a ≠ k) : (t.erase k).get? a = t.get? a := by
  simp [get?_erase, h]

theorem get?_eraseAll (t : Table κ ν) (ks : List κ) (a : κ) :
    (t.eraseAll ks).get? a = if a ∈ ks then none else t.get? a := by
  by_cases h : a ∈ ks <;> simp [eraseAll, get?_filter, h]

@[simp] theorem eraseAll_nil (t : Table κ ν) : t.eraseAll [] = t := by
  simp [eraseAll, filter]

theorem eraseAll_eraseAll (t : Table κ ν) (ks ls : List κ) : (t.eraseAll ks).eraseAll ls = t.eraseAll (ks ++ ls) := by
  simp only [eraseAll, filter, List.filter_filter, mk.injEq]
  apply List.filter_congr
  intro x _
  by_cases h : x.1 ∈ ks <;> simp [h]

theorem eraseAll_congr (t : Table κ ν) {ks ls : List κ} (h : ∀ k, k ∈ ks ↔ k ∈ ls) : t.eraseAll ks = t.eraseAll ls := by
  simp only [eraseAll, filter, mk.injEq]
  apply List.filter_congr
  intro x _
  simp [h x.1]

/-! ## Entries -/

/-- An entry is exactly what its key reads as. -/
theorem mem_iff (t : Table κ ν) (k : κ) (v : ν) : (k, v) ∈ t.entries ↔ t.get? k = some v := by
  obtain ⟨l, hl⟩ := t
  unfold get?
  simp only
  induction l with
  | nil => simp
  | cons x l ih =>
    simp only [List.map_cons, List.nodup_cons] at hl
    by_cases h : x.1 = k
    · subst h
      have hn : (x.1, v) ∉ l := fun hm => hl.1 (List.mem_map.mpr ⟨_, hm, rfl⟩)
      simp only [List.mem_cons, hn, or_false, List.find?_cons, beq_self_eq_true, Option.map_some, Option.some.injEq]
      exact ⟨fun e => by rw [← e], fun e => by rw [← e]⟩
    · have hb : (x.1 == k) = false := by simpa using h
      have hx : (k, v) ≠ x := fun e => h (by rw [← e])
      simp only [List.mem_cons, hx, false_or, List.find?_cons, hb]
      exact ih hl.2

theorem isEmpty_of_get {t : Table κ ν} {k : κ} {v : ν} (h : t.get? k = some v) : t.entries.isEmpty = false := by
  rw [Bool.eq_false_iff]
  intro e
  rw [get?, List.isEmpty_iff.mp e] at h
  simp at h

theorem mem_keys (t : Table κ ν) (k : κ) : k ∈ t.keys ↔ ∃ v, t.get? k = some v := by
  unfold keys
  rw [List.mem_map]
  constructor
  · intro hx
    rcases hx with ⟨⟨a, v⟩, hm, rfl⟩
    exact ⟨v, (t.mem_iff _ _).mp hm⟩
  · intro hx
    rcases hx with ⟨v, hv⟩
    exact ⟨(k, v), (t.mem_iff _ _).mpr hv, rfl⟩

theorem erase_absent {t : Table κ ν} {k : κ} (h : t.get? k = none) : t.erase k = t := by
  obtain ⟨l, hl⟩ := t
  simp only [erase, filter, mk.injEq, List.filter_eq_self]
  intro x hx
  rw [bne_iff_ne]
  intro hxk
  have hread : get? ⟨l, hl⟩ k = some x.2 := (mem_iff ⟨l, hl⟩ k x.2).mp (hxk ▸ hx)
  rw [h] at hread
  cases hread

theorem keys_erase (t : Table κ ν) (k : κ) : (t.erase k).keys = t.keys.filter (· != k) := by
  show ((t.entries.filter fun x => x.1 != k).map (·.1)) = (t.entries.map (·.1)).filter (· != k)
  rw [List.filter_map]
  rfl

/-- A new key goes to the end. -/
theorem keys_set_new (t : Table κ ν) {k : κ} (v : ν) (h : t.get? k = none) : (t.set k v).keys = t.keys ++ [k] := by
  have hk : ∀ l : List (κ × ν), k ∉ l.map (·.1) → (assign k v l).map (·.1) = l.map (·.1) ++ [k] := by
    intro l
    induction l with
    | nil => intro _; rfl
    | cons x l ih =>
      intro hno
      simp only [List.map_cons, List.mem_cons, not_or] at hno
      unfold assign
      rw [if_neg fun e => hno.1 e.symm, List.map_cons, ih hno.2, List.map_cons, List.cons_append]
  apply hk
  intro hmem
  obtain ⟨w, hw⟩ := (t.mem_keys k).mp hmem
  rw [h] at hw
  cases hw

theorem entries_set_new (t : Table κ ν) {k : κ} (v : ν) (h : t.get? k = none) :
    (t.set k v).entries = t.entries ++ [(k, v)] := by
  have hk : ∀ l : List (κ × ν), k ∉ l.map (·.1) → assign k v l = l ++ [(k, v)] := by
    intro l
    induction l with
    | nil => intro _; rfl
    | cons x l ih =>
      intro hno
      simp only [List.map_cons, List.mem_cons, not_or] at hno
      rw [assign, if_neg fun e => hno.1 e.symm, ih hno.2, List.cons_append]
  refine hk _ fun hmem => ?_
  obtain ⟨w, hw⟩ := (t.mem_keys k).mp hmem
  rw [h] at hw
  cases hw

omit [DecidableEq κ] in
theorem entries_inj {t s : Table κ ν} : t.entries = s.entries ↔ t = s := by
  obtain ⟨l, hl⟩ := t
  obtain ⟨k, hk⟩ := s
  rw [mk.injEq]

/-- What is left when the keys of a range that are not kept are deleted one by one. -/
theorem foldl_erase (keep : κ → Bool) (ks : List κ) (t : Table κ ν) :
    ks.foldl (fun t k => if keep k then t else t.erase k) t = t.eraseAll (ks.filter (!keep ·)) := by
  induction ks generalizing t with
  | nil => rw [List.foldl_nil, List.filter_nil, eraseAll_nil]
  | cons k ks ih =>
    rw [List.foldl_cons, ih]
    cases hk : keep k with
    | true => rw [if_pos rfl, List.filter_cons_of_neg (by simp [hk])]
    | false =>
      have hone : t.erase k = t.eraseAll [k] := by
        simp only [erase, eraseAll]
        congr 1
        funext x
        by_cases h : x = k <;> simp [h]
      rw [if_neg Bool.false_ne_true, List.filter_cons_of_pos (by simp [hk]), hone, eraseAll_eraseAll]
      rfl

/-- Deleting while ranging over all the keys, in any order, is filtering. -/
theorem foldl_erase_all (keep : κ → Bool) {ks : List κ} {t : Table κ ν} (h : ∀ k ∈ t.keys, k ∈ ks) :
    ks.foldl (fun t k => if keep k then t else t.erase k) t = t.filter keep := by
  rw [foldl_erase]
  simp only [eraseAll, filter, mk.injEq]
  apply List.filter_congr
  intro x hx
  have hin := h x.1 (List.mem_map_of_mem hx)
  cases hk : keep x.1 <;> simp [hin, hk]

theorem get?_mapVal {μ : Type} (f : ν → μ) (t : Table κ ν) (a : κ) : (t.mapVal f).get? a = (t.get? a).map f := by
  simp only [get?, mapVal, List.find?_map, Option.map_map]
  rfl

/-- The entries under one key: what the key reads as. -/
theorem filter_key (t : Table κ ν) (k : κ) :
    t.entries.filter (·.1 == k) = (t.get? k).toList.map fun v => (k, v) := by
  obtain ⟨l, hl⟩ := t
  unfold get?
  simp only
  induction l with
  | nil => rfl
  | cons x l ih =>
    simp only [List.map_cons, List.nodup_cons] at hl
    by_cases h : x.1 = k
    · have hn : l.filter (·.1 == k) = [] := by
        rw [List.filter_eq_nil_iff]
        intro y hy he
        have hk : y.1 = k := by simpa using he
        exact hl.1 (List.mem_map.mpr ⟨y, hy, hk.trans h.symm⟩)
      subst h
      simp [hn]
    · have hb : (x.1 == k) = false := by simpa using h
      simp only [List.filter_cons, List.find?_cons, hb]
      exact ih hl.2

/-- A fold over the entries, seen at one key: only the entry under the key counts. -/
theorem foldl_at {σ τ : Type} (t : Table κ ν) (f : σ → κ × ν → σ) (view : σ → τ) (k : κ) (g : τ → ν → τ)
    (hother : ∀ s x, x.1 ≠ k → view (f s x) = view s) (hself : ∀ s v, view (f s (k, v)) = g (view s) v) (s : σ) :
    view (t.entries.foldl f s) = (t.get? k).elim (view s) (g (view s)) := by
  obtain ⟨l, hl⟩ := t
  have hnone : ∀ (l : List (κ × ν)) (s : σ), k ∉ l.map (·.1) → view (l.foldl f s) = view s := by
    intro l
    induction l with
    | nil => intro s _; rfl
    | cons x l ih =>
      intro s hno
      simp only [List.map_cons, List.mem_cons, not_or] at hno
      rw [List.foldl_cons, ih _ hno.2, hother s x fun e => hno.1 e.symm]
  unfold get?
  simp only
  induction l generalizing s with
  | nil => rfl
  | cons x l ih =>
    simp only [List.map_cons, List.nodup_cons] at hl
    by_cases h : x.1 = k
    · subst h
      rw [List.foldl_cons, hnone l _ hl.1, hself]
      simp
    · have hb : (x.1 == k) = false := by simpa using h
      rw [List.foldl_cons, ih _ hl.2, hother s x h]
      simp only [List.find?_cons, hb]

/-- After a run of assignments a key reads as the last one under it. -/
theorem get?_foldl_set {α : Type} (key : α → κ) (value : α → ν) (l : List α) (t : Table κ ν) (a : κ) :
    (l.foldl (fun t x => t.set (key x) (value x)) t).get? a =
      ((l.reverse.find? (key · == a)).map value).or (t.get? a) := by
  induction l generalizing t with
  | nil => rfl
  | cons x l ih =>
    rw [List.foldl_cons, ih, List.reverse_cons, List.find?_append, get?_set]
    by_cases h : key x = a
    · subst h
      cases l.reverse.find? (key · == key x) <;> simp
    · have hb : (key x == a) = false := by simpa using h
      have hne : a ≠ key x := fun e => h e.symm
      simp [hb, hne]

end Table

end CasuyaLive.Lib
