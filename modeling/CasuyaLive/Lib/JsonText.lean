/-
  CasuyaLive.Lib.JsonText — JSON texts by a writer's own way of quoting. A `Quoting` says how
  strings are written and what code units a reader gets; its field `read_body` makes a
  quoting that no reader undoes impossible to build. `parse_text`: what was written is read
  back, with those units for strings.

  `go` is the quoting of Go's encoding/json: markup characters and the two line separators
  are escaped, every other character above the controls stands as it is.
-/

import CasuyaLive.Lib.Json

namespace CasuyaLive.Lib.Json

structure Quoting (S : Type) where
  /-- Between the quotes. -/
  body : S → List Char
  units : S → Utf16
  read_body : ∀ s cs, readString (body s ++ '"' :: cs) = some (units s, cs)

namespace Quoting

variable {S : Type} (q : Quoting S)

def quoted (s : S) : List Char := '"' :: (q.body s ++ ['"'])

mutual

def text : Json Lit S → List Char
  | .null => ['n', 'u', 'l', 'l']
  | .bool true => ['t', 'r', 'u', 'e']
  | .bool false => ['f', 'a', 'l', 's', 'e']
  | .num l => l.1
  | .str s => q.quoted s
  | .arr [] => ['[', ']']
  | .arr (x :: xs) => '[' :: (text x ++ textElems xs)
  | .obj [] => ['{', '}']
  | .obj ((k, x) :: ms) => '{' :: (q.quoted k ++ ':' :: (text x ++ textMembers ms))

def textElems : List (Json Lit S) → List Char
  | [] => [']']
  | x :: xs => ',' :: (text x ++ textElems xs)

def textMembers : List (S × Json Lit S) → List Char
  | [] => ['}']
  | (k, x) :: ms => ',' :: (q.quoted k ++ ':' :: (text x ++ textMembers ms))

end

mutual

/-- The value a reader gets. -/
def value : Json Lit S → Parsed
  | .null => .null
  | .bool b => .bool b
  | .num l => .num l
  | .str s => .str (q.units s)
  | .arr xs => .arr (values xs)
  | .obj ms => .obj (members ms)

def values : List (Json Lit S) → List Parsed
  | [] => []
  | x :: xs => value x :: values xs

def members : List (S × Json Lit S) → List (Utf16 × Parsed)
  | [] => []
  | (k, x) :: ms => (q.units k, value x) :: members ms

end

/-! ## Reading it back -/

theorem readKey_quoted (k : S) (cs : List Char) : readKey (q.quoted k ++ ':' :: cs) = some (q.units k, cs) := by
  simp only [quoted, List.cons_append, List.append_assoc, List.nil_append]
  rw [readKey, skipBlank_cons (by decide)]
  simp only [if_true, q.read_body, Option.bind_some]
  rw [skipBlank_cons (by decide)]
  simp

theorem textElems_delim (xs : List (Json Lit S)) (r : List Char) : Delim (q.textElems xs ++ r) := by
  cases xs <;> exact delim_cons _ (by decide)

theorem textMembers_delim (ms : List (S × Json Lit S)) (r : List Char) : Delim (q.textMembers ms ++ r) := by
  cases ms <;> exact delim_cons _ (by decide)

/-- A value begins as it does in any writing. -/
theorem text_head (v : Json Lit S) : ∃ c cs, q.text v = c :: cs ∧ isBlank c = false ∧ c ≠ ']' ∧ c ≠ '}' := by
  cases v with
  | null => exact ⟨_, _, by rw [text], by decide, by decide, by decide⟩
  | bool b => cases b <;> exact ⟨_, _, by rw [text], by decide, by decide, by decide⟩
  | num l =>
    obtain ⟨c, cs, he, hc⟩ := write_head (.num l)
    exact ⟨c, cs, by rw [text, ← he, write], hc⟩
  | str s => exact ⟨_, _, by rw [text, quoted], by decide, by decide, by decide⟩
  | arr xs => cases xs <;> exact ⟨_, _, by rw [text], by decide, by decide, by decide⟩
  | obj ms => cases ms <;> exact ⟨_, _, by rw [text], by decide, by decide, by decide⟩

mutual

theorem readValue_text : ∀ (v : Json Lit S) (n : Nat) (r : List Char), 2 * (q.text v).length < n → Delim r →
    readValue n (q.text v ++ r) = some (q.value v, r)
  | v, 0, _, h, _ => by omega
  | .null, n + 1, r, _, _ => by
    rw [text, List.cons_append, readValue, skipBlank_cons (by decide)]
    exact keyword_append ['n', 'u', 'l', 'l'] .null r
  | .bool true, n + 1, r, _, _ => by
    rw [text, List.cons_append, readValue, skipBlank_cons (by decide)]
    exact keyword_append ['t', 'r', 'u', 'e'] (.bool true) r
  | .bool false, n + 1, r, _, _ => by
    rw [text, List.cons_append, readValue, skipBlank_cons (by decide)]
    exact keyword_append ['f', 'a', 'l', 's', 'e'] (.bool false) r
  | .num l, n + 1, r, _, hr => by
    rw [text]
    exact readValue_num n l hr
  | .str s, n + 1, r, _, _ => by
    rw [text, quoted, List.cons_append, readValue, skipBlank_cons (by decide), List.append_assoc]
    simp only [if_true, List.cons_append, List.nil_append, q.read_body, Option.map_some]
    rfl
  | .arr [], n + 1, r, _, _ => by
    rw [text, List.cons_append, readValue, skipBlank_cons (by decide)]
    rfl
  | .arr (x :: xs), n + 1, r, h, _ => by
    rw [text] at h ⊢
    rw [List.cons_append, readValue, skipBlank_cons (by decide)]
    have hx := readElems_text x xs n r (by simp only [List.length_cons] at h; omega)
    obtain ⟨c, cs, he, hb, hc, -⟩ := q.text_head x
    have hhead : (skipBlank (q.text x ++ q.textElems xs ++ r)).head? ≠ some ']' := by
      rw [he, List.append_assoc, List.cons_append, skipBlank_cons hb]
      simpa using hc
    simp only [Char.reduceEq, if_false, if_true, hhead, hx, Option.map_some]
    rfl
  | .obj [], n + 1, r, _, _ => by
    rw [text, List.cons_append, readValue, skipBlank_cons (by decide)]
    rfl
  | .obj ((k, x) :: ms), n + 1, r, h, _ => by
    rw [text] at h ⊢
    rw [List.cons_append, readValue, skipBlank_cons (by decide)]
    have hx := readMembers_text k x ms n r (by simp only [List.length_cons] at h; omega)
    have hhead : (skipBlank (q.quoted k ++ ':' :: (q.text x ++ q.textMembers ms) ++ r)).head? ≠ some '}' := by
      rw [quoted, List.append_assoc, List.cons_append, skipBlank_cons (by decide)]
      simp
    simp only [Char.reduceEq, if_false, if_true, hhead, hx, Option.map_some]
    rfl

theorem readElems_text : ∀ (x : Json Lit S) (xs : List (Json Lit S)) (n : Nat) (r : List Char),
    2 * (q.text x ++ q.textElems xs).length ≤ n → readElems n (q.text x ++ q.textElems xs ++ r) = some (q.values (x :: xs), r)
  | x, xs, 0, r, h => by
    obtain ⟨c, cs, he, -⟩ := q.text_head x
    rw [he] at h
    simp at h
  | x, [], n + 1, r, h => by
    rw [List.append_assoc]
    have hx := readValue_text x n (q.textElems [] ++ r) (by simp [textElems] at h; omega) (q.textElems_delim [] r)
    rw [readElems, hx, Option.bind_some, textElems, List.cons_append, skipBlank_cons (by decide)]
    rfl
  | x, y :: xs, n + 1, r, h => by
    rw [List.append_assoc]
    have hx := readValue_text x n (q.textElems (y :: xs) ++ r) (by simp [textElems] at h; omega)
      (q.textElems_delim (y :: xs) r)
    have hxs := readElems_text y xs n r (by simp [textElems] at h ⊢; omega)
    rw [readElems, hx, Option.bind_some, textElems, List.cons_append, skipBlank_cons (by decide)]
    simp only [if_true, hxs, Option.map_some]
    rfl

theorem readMembers_text : ∀ (k : S) (x : Json Lit S) (ms : List (S × Json Lit S)) (n : Nat) (r : List Char),
    2 * (q.quoted k ++ ':' :: (q.text x ++ q.textMembers ms)).length ≤ n →
    readMembers n (q.quoted k ++ ':' :: (q.text x ++ q.textMembers ms) ++ r) = some (q.members ((k, x) :: ms), r)
  | k, x, ms, 0, r, h => by simp [quoted] at h
  | k, x, [], n + 1, r, h => by
    rw [List.append_assoc, List.cons_append, List.append_assoc]
    have hx := readValue_text x n (q.textMembers [] ++ r) (by simp [textMembers] at h; omega) (q.textMembers_delim [] r)
    rw [readMembers, q.readKey_quoted, Option.bind_some, hx, Option.bind_some, textMembers, List.cons_append,
      skipBlank_cons (by decide)]
    rfl
  | k, x, (k', y) :: ms, n + 1, r, h => by
    rw [List.append_assoc, List.cons_append, List.append_assoc]
    have hx := readValue_text x n (q.textMembers ((k', y) :: ms) ++ r) (by simp [textMembers] at h; omega)
      (q.textMembers_delim ((k', y) :: ms) r)
    have hms := readMembers_text k' y ms n r (by simp [textMembers] at h ⊢; omega)
    rw [readMembers, q.readKey_quoted, Option.bind_some, hx, Option.bind_some, textMembers, List.cons_append,
      skipBlank_cons (by decide)]
    simp only [if_true, hms, Option.map_some]
    rfl

end

/-- What was written is read back. -/
theorem parse_text (v : Json Lit S) : parse (q.text v) = some (q.value v) := by
  have h := q.readValue_text v (2 * (q.text v).length + 2) [] (by omega) delim_nil
  rw [List.append_nil] at h
  rw [parse, h]
  rfl

end Quoting

/-! ## Go -/

def goShort (c : Char) : Option Char :=
  if c = '"' then some '"'
  else if c = '\\' then some '\\'
  else if c = '\x08' then some 'b'
  else if c = '\x0c' then some 'f'
  else if c = '\n' then some 'n'
  else if c = '\r' then some 'r'
  else if c = '\t' then some 't'
  else none

/-- One character, as encoding/json writes it. -/
def goChar (c : Char) : List Char :=
  match goShort c with
  | some e => ['\\', e]
  | none =>
    if c.toNat < 32 ∨ c = '<' ∨ c = '>' ∨ c = '&' ∨ c = '\u2028' ∨ c = '\u2029' then
      ['\\', 'u', hexDigit (c.toNat / 4096), hexDigit (c.toNat / 256), hexDigit (c.toNat / 16), hexDigit c.toNat]
    else [c]

theorem unitOf_goShort {c e : Char} (h : goShort c = some e) : (unitOf e).map (fun u => [u]) = some (units c) ∧ e ≠ 'u' := by
  unfold goShort at h
  repeat' split at h
  all_goals cases h
  all_goals
    subst c
    decide

theorem readString_short {c e : Char} (h : goShort c = some e) (cs : List Char) :
    readString ('\\' :: e :: cs) = (readString cs).map fun p => (units c ++ p.1, p.2) := by
  obtain ⟨hunits, hne⟩ := unitOf_goShort h
  obtain ⟨u, hu, he⟩ := Option.map_eq_some_iff.mp hunits
  rw [readString]
  · rw [hu, Option.bind_some, ← he]
    rfl
  · exact fun _ _ _ _ _ e _ => hne e

theorem readString_hex {c : Char} (h : c.toNat < 0x10000) (cs : List Char) :
    readString ('\\' :: 'u' :: hexDigit (c.toNat / 4096) :: hexDigit (c.toNat / 256) :: hexDigit (c.toNat / 16) ::
      hexDigit c.toNat :: cs) = (readString cs).map fun p => (units c ++ p.1, p.2) := by
  have hu : (c.toNat.toUInt16).toNat = c.toNat := by
    simp only [Nat.toUInt16_eq, UInt16.toNat_ofNat']
    omega
  have hhex := hex4_hexDigits c.toNat.toUInt16
  rw [hu] at hhex
  rw [readString, hhex, Option.bind_some, units, if_pos h]
  rfl

theorem readString_goChar (c : Char) (cs : List Char) :
    readString (goChar c ++ cs) = (readString cs).map fun p => (units c ++ p.1, p.2) := by
  unfold goChar
  split
  · rename_i e he
    exact readString_short he cs
  · rename_i hs
    split
    · rename_i h
      refine readString_hex ?_ cs
      rcases h with h | rfl | rfl | rfl | rfl | rfl
      · omega
      all_goals decide
    · rename_i h
      have hplain : c ≠ '"' ∧ c ≠ '\\' := by
        constructor
        all_goals
          rintro rfl
          simp [goShort] at hs
      exact readString_plain hplain.1 hplain.2 (by omega)

theorem readString_goBody (s : String) (cs : List Char) :
    readString (s.toList.flatMap goChar ++ '"' :: cs) = some (ofString s, cs) := by
  rw [ofString]
  induction s.toList with
  | nil => rw [List.flatMap_nil, List.nil_append, readString, List.flatMap_nil]
  | cons c l ih => rw [List.flatMap_cons, List.append_assoc, readString_goChar, ih, Option.map_some, List.flatMap_cons]

def go : Quoting String := ⟨fun s => s.toList.flatMap goChar, ofString, readString_goBody⟩

/-- The integer that a literal without fraction and exponent names. -/
def Lit.int? (l : Lit) : Option Int :=
  let (neg, ds) := Text.signed l.1
  if ds.all Char.isDigit then some (if neg then -(Text.decimal ds : Int) else Text.decimal ds) else none

theorem int?_ofInt (n : Int) : (Lit.ofInt n).int? = some n := by
  have hdigits : (Nat.toDigits 10 n.natAbs).all Char.isDigit = true := List.all_eq_true.mpr fun c hc => Text.toDigits_digit hc
  have htext : (Lit.ofInt n).1 = if n < 0 then '-' :: Nat.toDigits 10 n.natAbs else Nat.toDigits 10 n.natAbs := Text.itoa_toList n
  have hsigned : Text.signed (Lit.ofInt n).1 = (decide (n < 0), Nat.toDigits 10 n.natAbs) := by
    rw [htext]
    split
    · rename_i hn
      rw [decide_eq_true hn]
      rfl
    · rename_i hn
      rw [decide_eq_false hn]
      exact Text.signed_digits fun c hc => Text.toDigits_digit hc
  simp only [Lit.int?, hsigned, hdigits, Text.decimal_toDigits, if_true, decide_eq_true_eq]
  congr 1
  split <;> omega

theorem members_eq (q : Quoting String) (fields : List (String × Json Lit String)) :
    q.members fields = fields.map fun f => (q.units f.1, q.value f.2) := by
  induction fields with
  | nil => rw [Quoting.members, List.map_nil]
  | cons f fields ih =>
    obtain ⟨k, x⟩ := f
    rw [Quoting.members, ih, List.map_cons]

/-- The value a reader gets under a key of a written object. -/
theorem get?_go (fields : List (String × Json Lit String)) (key : String) :
    (go.value (.obj fields)).get? (ofString key) = (fields.reverse.find? fun f => f.1 = key).map fun f => go.value f.2 := by
  have hunits : ∀ s, go.units s = ofString s := fun _ => rfl
  simp only [Quoting.value, members_eq, get?, hunits, ← List.map_reverse, List.find?_map, Option.map_map, Function.comp_def,
    ofString_inj]

end CasuyaLive.Lib.Json
