/-
  CasuyaLive.Lib.Json — JSON values, their text, and its reading.

  `Json N S` has numbers `N` and strings `S`. A text is read into number literals (`Lit`,
  the literal as it stands in the text, valid by its field) and sequences of UTF-16 code
  units (`Utf16`); what a language makes of the two is its own affair.

  `write` is the compact text in ASCII: every unit outside the printable characters is
  escaped. `parse` reads any text of the grammar, with white space and all escapes, and
  nothing else. `parse_write`: it reads back what was written.
-/

import CasuyaLive.Lib.Text

namespace CasuyaLive.Lib

inductive Json (N S : Type) where
  | null
  | bool (b : Bool)
  | num (n : N)
  | str (s : S)
  | arr (xs : List (Json N S))
  | obj (fields : List (S × Json N S))

namespace Json

variable {N S : Type}

/-- The value under a key; the last one where the key is repeated. -/
def get? [DecidableEq S] (key : S) : Json N S → Option (Json N S)
  | .obj fields => (fields.reverse.find? (·.1 = key)).map (·.2)
  | .null => none
  | .bool _ => none
  | .num _ => none
  | .str _ => none
  | .arr _ => none

/-! ## Number literals -/

/-- Where a number may stand: after its sign, a leading zero, a digit, the point, a digit of
    the fraction, the exponent's letter, its sign, its digits. -/
inductive NumState where
  | begin
  | neg
  | zero
  | int
  | dot
  | frac
  | e
  | sign
  | exp

def isDigit19 (c : Char) : Bool := c.isDigit && c != '0'

def NumState.fraction (c : Char) : Option NumState :=
  if c = '.' then some .dot else if c = 'e' ∨ c = 'E' then some .e else none

def NumState.next : NumState → Char → Option NumState
  | .begin, c => if c = '-' then some .neg else if c = '0' then some .zero else if isDigit19 c then some .int else none
  | .neg, c => if c = '0' then some .zero else if isDigit19 c then some .int else none
  | .zero, c => fraction c
  | .int, c => if c.isDigit then some .int else fraction c
  | .dot, c => if c.isDigit then some .frac else none
  | .frac, c => if c.isDigit then some .frac else if c = 'e' ∨ c = 'E' then some .e else none
  | .e, c => if c = '+' ∨ c = '-' then some .sign else if c.isDigit then some .exp else none
  | .sign, c => if c.isDigit then some .exp else none
  | .exp, c => if c.isDigit then some .exp else none

def NumState.done : NumState → Bool
  | .begin => false
  | .neg => false
  | .zero => true
  | .int => true
  | .dot => false
  | .frac => true
  | .e => false
  | .sign => false
  | .exp => true

/-- The number in front and what follows it. -/
def scan : NumState → List Char → Option (List Char × List Char)
  | st, [] => if st.done then some ([], []) else none
  | st, c :: cs =>
    match st.next c with
    | some st' => (scan st' cs).map fun p => (c :: p.1, p.2)
    | none => if st.done then some ([], c :: cs) else none

def numberChar (c : Char) : Bool := c.isDigit || c == '-' || c == '+' || c == '.' || c == 'e' || c == 'E'

/-- No number goes on into this text. -/
def Delim (r : List Char) : Prop := ∀ c ∈ r.head?, numberChar c = false

theorem delim_nil : Delim [] := nofun

theorem delim_cons {c : Char} (r : List Char) (h : numberChar c = false) : Delim (c :: r) := by
  intro d hd
  simp only [List.head?_cons, Option.mem_def, Option.some.injEq] at hd
  rw [← hd]
  exact h

theorem NumState.next_none (st : NumState) {c : Char} (h : numberChar c = false) : st.next c = none := by
  simp only [numberChar, Bool.or_eq_false_iff, beq_eq_false_iff_ne] at h
  obtain ⟨⟨⟨⟨⟨hd, hm⟩, hp⟩, hdot⟩, he⟩, hE⟩ := h
  have h0 : c ≠ '0' := by
    intro heq
    subst heq
    exact absurd hd (by decide)
  have h19 : isDigit19 c = false := by simp [isDigit19, hd]
  cases st <;> simp [next, fraction, hd, hm, hp, hdot, he, hE, h0, h19]

/-- A number is read the same way in front of any other text that does not go on with it. -/
theorem scan_exact (cs : List Char) : ∀ {st : NumState} {a b : List Char}, scan st cs = some (a, b) →
    ∀ {r : List Char}, Delim r → scan st (a ++ r) = some (a, r) := by
  have hstop : ∀ {st : NumState}, st.done = true → ∀ {r : List Char}, Delim r → scan st r = some ([], r) := by
    intro st hst r hr
    cases r with
    | nil => simp [scan, hst]
    | cons c r => simp [scan, st.next_none (hr c rfl), hst]
  induction cs with
  | nil =>
    intro st a b h r hr
    simp only [scan] at h
    split at h
    · rename_i hst
      cases h
      exact hstop hst hr
    · cases h
  | cons c cs ih =>
    intro st a b h r hr
    simp only [scan] at h
    split at h
    · rename_i st' hst
      obtain ⟨p, hp, he⟩ := Option.map_eq_some_iff.mp h
      cases he
      simp [scan, hst, ih hp hr]
    · split at h
      · rename_i hst
        cases h
        exact hstop hst hr
      · cases h

/-- A JSON number as it is written. -/
def Lit : Type := { text : List Char // scan .begin text = some (text, []) }

instance : DecidableEq Lit := inferInstanceAs (DecidableEq { text : List Char // scan .begin text = some (text, []) })

def readNumber (cs : List Char) : Option (Lit × List Char) :=
  match h : scan .begin cs with
  | some (a, b) => some (⟨a, by simpa using scan_exact cs h delim_nil⟩, b)
  | none => none

theorem readNumber_lit (l : Lit) {r : List Char} (hr : Delim r) : readNumber (l.1 ++ r) = some (l, r) := by
  have h := scan_exact l.1 l.2 hr
  unfold readNumber
  split
  · rename_i a b hab
    rw [h] at hab
    cases hab
    rfl
  · rename_i hn
    rw [h] at hn
    cases hn

/-- A literal begins with a digit or with its sign. -/
theorem Lit.head (l : Lit) : ∃ c cs, l.1 = c :: cs ∧ (c = '-' ∨ c.isDigit = true) := by
  obtain ⟨text, h⟩ := l
  cases text with
  | nil => simp [scan, NumState.done] at h
  | cons c cs =>
    refine ⟨c, cs, rfl, ?_⟩
    by_contra hc
    have hm : c ≠ '-' := fun e => hc (Or.inl e)
    have hd : c.isDigit = false := by simpa using fun e => hc (Or.inr e)
    have h0 : c ≠ '0' := by
      intro heq
      subst heq
      exact absurd hd (by decide)
    simp [scan, NumState.next, NumState.done, isDigit19, hm, hd, h0] at h

theorem scan_digits {ds : List Char} (h : ∀ c ∈ ds, c.isDigit = true) : scan .int ds = some (ds, []) := by
  induction ds with
  | nil => rfl
  | cons c ds ih =>
    have hc := h c List.mem_cons_self
    simp [scan, NumState.next, hc, ih fun d hd => h d (List.mem_cons_of_mem _ hd)]

/-- From the beginning or after the sign. -/
theorem scan_toDigits {st : NumState} (h0 : st.next '0' = some .zero)
    (h19 : ∀ c, isDigit19 c = true → st.next c = some .int) (n : Nat) :
    scan st (Nat.toDigits 10 n) = some (Nat.toDigits 10 n, []) := by
  by_cases hn : n = 0
  · subst hn
    simp [scan, h0, NumState.done]
  · obtain ⟨c, cs, he, hc⟩ := Text.toDigits_cons hn
    have hd : ∀ d ∈ c :: cs, d.isDigit = true := fun d hd => Text.toDigits_digit (he ▸ hd)
    have h1 : isDigit19 c = true := by simp [isDigit19, hd c List.mem_cons_self, hc]
    rw [he]
    simp [scan, h19 c h1, scan_digits fun d hd' => hd d (List.mem_cons_of_mem _ hd')]

/-- The literal of an integer. -/
def Lit.ofInt (n : Int) : Lit :=
  ⟨(Text.itoa n).toList, by
    rw [Text.itoa_toList]
    have hbegin : ∀ c, isDigit19 c = true → NumState.begin.next c = some .int := by
      intro c hc
      have hm : c ≠ '-' := by
        intro heq
        subst heq
        exact absurd hc (by decide)
      have h0 : c ≠ '0' := by
        intro heq
        subst heq
        exact absurd hc (by decide)
      simp [NumState.next, hm, h0, hc]
    have hneg : ∀ c, isDigit19 c = true → NumState.neg.next c = some .int := by
      intro c hc
      have h0 : c ≠ '0' := by
        intro heq
        subst heq
        exact absurd hc (by decide)
      simp [NumState.next, h0, hc]
    split
    · rw [scan, show NumState.begin.next '-' = some .neg from rfl]
      simp [@scan_toDigits .neg rfl hneg]
    · exact scan_toDigits rfl hbegin _⟩

/-! ## Strings -/

abbrev Utf16 := List UInt16

def units (c : Char) : Utf16 :=
  if c.toNat < 0x10000 then [c.toNat.toUInt16]
  else [(0xD800 + (c.toNat - 0x10000) / 0x400).toUInt16, (0xDC00 + (c.toNat - 0x10000) % 0x400).toUInt16]

def ofString (s : String) : Utf16 := s.toList.flatMap units

def isHigh (u : UInt16) : Bool := 0xD800 ≤ u.toNat && u.toNat < 0xDC00
def isLow (u : UInt16) : Bool := 0xDC00 ≤ u.toNat && u.toNat < 0xE000

/-- Pairs joined; a surrogate on its own becomes the replacement character. -/
def joined : Utf16 → List Char
  | [] => []
  | [u] => [if isHigh u || isLow u then '\uFFFD' else Char.ofNat u.toNat]
  | u :: v :: us =>
    if isHigh u && isLow v then
      Char.ofNat (0x10000 + (u.toNat - 0xD800) * 0x400 + (v.toNat - 0xDC00)) :: joined us
    else (if isHigh u || isLow u then '\uFFFD' else Char.ofNat u.toNat) :: joined (v :: us)

def toText (us : Utf16) : String := String.ofList (joined us)

theorem joined_plain {u : UInt16} (hh : isHigh u = false) (hl : isLow u = false) (us : Utf16) :
    joined (u :: us) = Char.ofNat u.toNat :: joined us := by
  cases us <;> simp [joined, hh, hl]

theorem joined_units (c : Char) (us : Utf16) : joined (units c ++ us) = c :: joined us := by
  have hv : c.toNat < 0xD800 ∨ (0xDFFF < c.toNat ∧ c.toNat < 0x110000) := c.valid
  by_cases hb : c.toNat < 0x10000
  · have hu : (c.toNat.toUInt16).toNat = c.toNat := by
      simp only [Nat.toUInt16_eq, UInt16.toNat_ofNat']
      omega
    rw [units, if_pos hb, List.singleton_append, joined_plain, hu, Char.ofNat_toNat]
    · simp only [isHigh, hu, Bool.and_eq_false_iff, decide_eq_false_iff_not]
      omega
    · simp only [isLow, hu, Bool.and_eq_false_iff, decide_eq_false_iff_not]
      omega
  · have hn : c.toNat - 0x10000 < 0x100000 := by omega
    have hhi : ((0xD800 + (c.toNat - 0x10000) / 0x400).toUInt16).toNat = 0xD800 + (c.toNat - 0x10000) / 0x400 := by
      simp only [Nat.toUInt16_eq, UInt16.toNat_ofNat']
      omega
    have hlo : ((0xDC00 + (c.toNat - 0x10000) % 0x400).toUInt16).toNat = 0xDC00 + (c.toNat - 0x10000) % 0x400 := by
      simp only [Nat.toUInt16_eq, UInt16.toNat_ofNat']
      omega
    have hhigh : isHigh (0xD800 + (c.toNat - 0x10000) / 0x400).toUInt16 = true := by
      simp only [isHigh, hhi, Bool.and_eq_true, decide_eq_true_eq]
      omega
    have hlow : isLow (0xDC00 + (c.toNat - 0x10000) % 0x400).toUInt16 = true := by
      simp only [isLow, hlo, Bool.and_eq_true, decide_eq_true_eq]
      omega
    rw [units, if_neg hb]
    simp only [List.cons_append, List.nil_append, joined, hhigh, hlow, Bool.and_self, if_true, hhi, hlo]
    have he : 0x10000 + (0xD800 + (c.toNat - 0x10000) / 0x400 - 0xD800) * 0x400 +
        (0xDC00 + (c.toNat - 0x10000) % 0x400 - 0xDC00) = c.toNat := by omega
    rw [he, Char.ofNat_toNat]

/-- A text goes through its code units unchanged. -/
theorem toText_ofString (s : String) : toText (ofString s) = s := by
  have h : ∀ l : List Char, joined (l.flatMap units) = l := by
    intro l
    induction l with
    | nil => rfl
    | cons c l ih => rw [List.flatMap_cons, joined_units, ih]
  rw [toText, ofString, h, String.ofList_toList]

theorem ofString_inj {s t : String} : ofString s = ofString t ↔ s = t := by
  refine ⟨fun h => ?_, fun h => by rw [h]⟩
  rw [← toText_ofString s, h, toText_ofString]

def hexDigit (n : Nat) : Char := (n % 16).digitChar

def hexVal (c : Char) : Option Nat :=
  if c.isDigit then some (c.toNat - 48)
  else if 'a' ≤ c ∧ c ≤ 'f' then some (c.toNat - 87)
  else if 'A' ≤ c ∧ c ≤ 'F' then some (c.toNat - 55)
  else none

theorem hexVal_hexDigit (n : Nat) : hexVal (hexDigit n) = some (n % 16) := by
  have h : ∀ d < 16, hexVal d.digitChar = some d := by decide
  exact h (n % 16) (Nat.mod_lt n (by omega))

/-- The short escape of a unit. -/
def shortOf (u : UInt16) : Option Char :=
  if u = 34 then some '"'
  else if u = 92 then some '\\'
  else if u = 8 then some 'b'
  else if u = 12 then some 'f'
  else if u = 10 then some 'n'
  else if u = 13 then some 'r'
  else if u = 9 then some 't'
  else none

def unitOf (c : Char) : Option UInt16 :=
  if c = '"' then some 34
  else if c = '\\' then some 92
  else if c = '/' then some 47
  else if c = 'b' then some 8
  else if c = 'f' then some 12
  else if c = 'n' then some 10
  else if c = 'r' then some 13
  else if c = 't' then some 9
  else none

theorem unitOf_short {u : UInt16} {c : Char} (h : shortOf u = some c) : unitOf c = some u ∧ c ≠ 'u' := by
  unfold shortOf at h
  repeat' split at h
  all_goals cases h
  all_goals
    subst u
    decide

def escape (u : UInt16) : List Char :=
  match shortOf u with
  | some c => ['\\', c]
  | none =>
    if 32 ≤ u.toNat ∧ u.toNat ≤ 126 then [Char.ofNat u.toNat]
    else ['\\', 'u', hexDigit (u.toNat / 4096), hexDigit (u.toNat / 256), hexDigit (u.toNat / 16), hexDigit u.toNat]

/-- The string in quotes. -/
def quote (us : Utf16) : List Char := '"' :: (us.flatMap escape ++ ['"'])

def hex4 (a b c d : Char) : Option UInt16 := do
  let a ← hexVal a
  let b ← hexVal b
  let c ← hexVal c
  let d ← hexVal d
  return (4096 * a + 256 * b + 16 * c + d).toUInt16

/-- What stands before the closing quote, and what follows it. -/
def readString : List Char → Option (Utf16 × List Char)
  | [] => none
  | '"' :: cs => some ([], cs)
  | '\\' :: 'u' :: a :: b :: c :: d :: cs =>
    (hex4 a b c d).bind fun u => (readString cs).map fun p => (u :: p.1, p.2)
  | '\\' :: c :: cs => (unitOf c).bind fun u => (readString cs).map fun p => (u :: p.1, p.2)
  | c :: cs => if c.toNat < 32 then none else (readString cs).map fun p => (units c ++ p.1, p.2)

theorem hex4_hexDigits (u : UInt16) :
    hex4 (hexDigit (u.toNat / 4096)) (hexDigit (u.toNat / 256)) (hexDigit (u.toNat / 16)) (hexDigit u.toNat) = some u := by
  have hlt : u.toNat < 65536 := u.toNat_lt
  have hn : 4096 * (u.toNat / 4096 % 16) + 256 * (u.toNat / 256 % 16) + 16 * (u.toNat / 16 % 16) + u.toNat % 16 =
      u.toNat := by omega
  simp only [hex4, hexVal_hexDigit, Option.bind_eq_bind, Option.bind_some, pure, hn]
  rw [Nat.toUInt16_eq, UInt16.ofNat_toNat]

theorem readString_plain {c : Char} {cs : List Char} (hq : c ≠ '"') (hb : c ≠ '\\') (h32 : 32 ≤ c.toNat) :
    readString (c :: cs) = (readString cs).map fun p => (units c ++ p.1, p.2) := by
  rw [readString]
  · rw [if_neg (by omega)]
  · exact fun e => hq e
  · exact fun _ _ _ _ _ e _ => hb e
  · exact fun _ _ e _ => hb e

theorem toNat_ofNat {n : Nat} (h : n < 0xD800) : (Char.ofNat n).toNat = n := by
  rw [Char.ofNat, dif_pos (Or.inl h)]
  rfl

theorem readString_escape (u : UInt16) (cs : List Char) :
    readString (escape u ++ cs) = (readString cs).map fun p => (u :: p.1, p.2) := by
  unfold escape
  split
  · rename_i c hc
    obtain ⟨hu, hne⟩ := unitOf_short hc
    simp only [List.cons_append, List.nil_append]
    rw [readString]
    · rw [hu, Option.bind_some]
    · exact fun _ _ _ _ _ e _ => hne e
  · rename_i hs
    split
    · rename_i hp
      have hv : (Char.ofNat u.toNat).toNat = u.toNat := toNat_ofNat (by omega)
      have hne : ∀ {k : Char}, Char.ofNat u.toNat = k → u.toNat = k.toNat := fun e => by rw [← e, hv]
      have hq : u ≠ 34 ∧ u ≠ 92 := by
        constructor
        all_goals
          intro heq
          subst heq
          simp [shortOf] at hs
      rw [List.singleton_append, readString_plain]
      · rw [units, hv, if_pos (by omega), Nat.toUInt16_eq, UInt16.ofNat_toNat]
        rfl
      · exact fun e => hq.1 (UInt16.toNat_inj.mp (hne e))
      · exact fun e => hq.2 (UInt16.toNat_inj.mp (hne e))
      · rw [hv]
        exact hp.1
    · simp only [List.cons_append, List.nil_append]
      rw [readString, hex4_hexDigits, Option.bind_some]

theorem readString_quote (us : Utf16) (cs : List Char) : readString (us.flatMap escape ++ '"' :: cs) = some (us, cs) := by
  induction us with
  | nil => rw [List.flatMap_nil, List.nil_append, readString]
  | cons u us ih => rw [List.flatMap_cons, List.append_assoc, readString_escape, ih, Option.map_some]

/-! ## Values -/

mutual

def write : Json Lit Utf16 → List Char
  | .null => ['n', 'u', 'l', 'l']
  | .bool true => ['t', 'r', 'u', 'e']
  | .bool false => ['f', 'a', 'l', 's', 'e']
  | .num l => l.1
  | .str us => quote us
  | .arr [] => ['[', ']']
  | .arr (x :: xs) => '[' :: (write x ++ writeElems xs)
  | .obj [] => ['{', '}']
  | .obj ((k, x) :: ms) => '{' :: (quote k ++ ':' :: (write x ++ writeMembers ms))

/-- The elements after the first, up to the closing bracket. -/
def writeElems : List (Json Lit Utf16) → List Char
  | [] => [']']
  | x :: xs => ',' :: (write x ++ writeElems xs)

def writeMembers : List (Utf16 × Json Lit Utf16) → List Char
  | [] => ['}']
  | (k, x) :: ms => ',' :: (quote k ++ ':' :: (write x ++ writeMembers ms))

end

def isBlank (c : Char) : Bool := c == ' ' || c == '\t' || c == '\n' || c == '\r'

def skipBlank (cs : List Char) : List Char := cs.dropWhile isBlank

def keyword (word : List Char) (v : Json Lit Utf16) (cs : List Char) : Option (Json Lit Utf16 × List Char) :=
  if word <+: cs then some (v, cs.drop word.length) else none

mutual

/-- The value in front and what follows it; the number bounds the calls. -/
def readValue : Nat → List Char → Option (Json Lit Utf16 × List Char)
  | 0, _ => none
  | n + 1, cs =>
    match skipBlank cs with
    | [] => none
    | c :: r =>
      if c = '"' then (readString r).map fun p => (.str p.1, p.2)
      else if c = '[' then
        if (skipBlank r).head? = some ']' then some (.arr [], (skipBlank r).tail)
        else (readElems n r).map fun p => (.arr p.1, p.2)
      else if c = '{' then
        if (skipBlank r).head? = some '}' then some (.obj [], (skipBlank r).tail)
        else (readMembers n r).map fun p => (.obj p.1, p.2)
      else if c = 'n' then keyword ['n', 'u', 'l', 'l'] .null (c :: r)
      else if c = 't' then keyword ['t', 'r', 'u', 'e'] (.bool true) (c :: r)
      else if c = 'f' then keyword ['f', 'a', 'l', 's', 'e'] (.bool false) (c :: r)
      else (readNumber (c :: r)).map fun p => (.num p.1, p.2)

/-- At least one element, up to the closing bracket. -/
def readElems : Nat → List Char → Option (List (Json Lit Utf16) × List Char)
  | 0, _ => none
  | n + 1, cs => (readValue n cs).bind fun x =>
    match skipBlank x.2 with
    | [] => none
    | c :: r =>
      if c = ',' then (readElems n r).map fun p => (x.1 :: p.1, p.2)
      else if c = ']' then some ([x.1], r)
      else none

/-- A key and the colon. -/
def readKey (cs : List Char) : Option (Utf16 × List Char) :=
  match skipBlank cs with
  | [] => none
  | c :: r =>
    if c = '"' then (readString r).bind fun k =>
      if (skipBlank k.2).head? = some ':' then some (k.1, (skipBlank k.2).tail) else none
    else none

def readMembers : Nat → List Char → Option (List (Utf16 × Json Lit Utf16) × List Char)
  | 0, _ => none
  | n + 1, cs => (readKey cs).bind fun k => (readValue n k.2).bind fun x =>
    match skipBlank x.2 with
    | [] => none
    | c :: r =>
      if c = ',' then (readMembers n r).map fun p => ((k.1, x.1) :: p.1, p.2)
      else if c = '}' then some ([(k.1, x.1)], r)
      else none

end

/-- Each character is worth two calls, its value's and its list's. -/
def parse (cs : List Char) : Option (Json Lit Utf16) :=
  (readValue (2 * cs.length + 2) cs).bind fun p => if (skipBlank p.2).isEmpty then some p.1 else none

/-! ## The text is ASCII -/

def Ascii (cs : List Char) : Prop := ∀ c ∈ cs, c.toNat < 128

instance (cs : List Char) : Decidable (Ascii cs) :=
  decidable_of_iff ((cs.all fun c => decide (c.toNat < 128)) = true) (by simp [Ascii])

theorem ascii_append {a b : List Char} (ha : Ascii a) (hb : Ascii b) : Ascii (a ++ b) := by
  intro c hc
  rcases List.mem_append.mp hc with h | h
  · exact ha c h
  · exact hb c h

theorem ascii_cons {c : Char} {cs : List Char} (hc : c.toNat < 128) (hcs : Ascii cs) : Ascii (c :: cs) := by
  intro d hd
  rcases List.mem_cons.mp hd with rfl | h
  · exact hc
  · exact hcs d h

theorem ascii_nil : Ascii [] := nofun

theorem scan_ascii (cs : List Char) : ∀ {st : NumState} {a b : List Char}, scan st cs = some (a, b) → Ascii a := by
  induction cs with
  | nil =>
    intro st a b h
    simp only [scan] at h
    split at h
    · cases h
      exact ascii_nil
    · cases h
  | cons c cs ih =>
    intro st a b h
    simp only [scan] at h
    split at h
    · rename_i st' hst
      obtain ⟨p, hp, he⟩ := Option.map_eq_some_iff.mp h
      cases he
      refine ascii_cons ?_ (ih hp)
      by_contra hc
      have hn : numberChar c = false := by
        by_contra hn
        simp only [Bool.not_eq_false, numberChar, Bool.or_eq_true, beq_iff_eq] at hn
        rcases hn with ((((hd | rfl) | rfl) | rfl) | rfl) | rfl
        · simp only [Char.isDigit, Bool.and_eq_true, decide_eq_true_eq] at hd
          exact hc (Nat.lt_of_le_of_lt hd.2 (by decide))
        all_goals exact hc (by decide)
      rw [st.next_none hn] at hst
      cases hst
    · split at h
      · cases h
        exact ascii_nil
      · cases h

theorem hexDigit_ascii (n : Nat) : (hexDigit n).toNat < 128 := by
  have h : ∀ d < 16, d.digitChar.toNat < 128 := by decide
  exact h (n % 16) (Nat.mod_lt n (by omega))

theorem escape_ascii (u : UInt16) : Ascii (escape u) := by
  unfold escape
  split
  · rename_i c hc
    refine ascii_cons (by decide) (ascii_cons ?_ ascii_nil)
    unfold shortOf at hc
    repeat' split at hc
    all_goals
      cases hc
    all_goals decide
  · split
    · rename_i hp
      refine ascii_cons ?_ ascii_nil
      rw [toNat_ofNat (by omega)]
      omega
    · refine ascii_cons (by decide) (ascii_cons (by decide) ?_)
      exact ascii_cons (hexDigit_ascii _) (ascii_cons (hexDigit_ascii _)
        (ascii_cons (hexDigit_ascii _) (ascii_cons (hexDigit_ascii _) ascii_nil)))

theorem quote_ascii (us : Utf16) : Ascii (quote us) := by
  refine ascii_cons (by decide) (ascii_append ?_ (ascii_cons (by decide) ascii_nil))
  intro c hc
  obtain ⟨u, -, hu⟩ := List.mem_flatMap.mp hc
  exact escape_ascii u c hu

mutual

theorem write_ascii : ∀ v : Json Lit Utf16, Ascii (write v)
  | .null => by rw [write]; decide
  | .bool true => by rw [write]; decide
  | .bool false => by rw [write]; decide
  | .num l => by rw [write]; exact scan_ascii l.1 l.2
  | .str us => by rw [write]; exact quote_ascii us
  | .arr [] => by rw [write]; decide
  | .arr (x :: xs) => by
    rw [write]
    exact ascii_cons (by decide) (ascii_append (write_ascii x) (writeElems_ascii xs))
  | .obj [] => by rw [write]; decide
  | .obj ((k, x) :: ms) => by
    rw [write]
    exact ascii_cons (by decide) (ascii_append (quote_ascii k)
      (ascii_cons (by decide) (ascii_append (write_ascii x) (writeMembers_ascii ms))))

theorem writeElems_ascii : ∀ xs : List (Json Lit Utf16), Ascii (writeElems xs)
  | [] => by rw [writeElems]; decide
  | x :: xs => by
    rw [writeElems]
    exact ascii_cons (by decide) (ascii_append (write_ascii x) (writeElems_ascii xs))

theorem writeMembers_ascii : ∀ ms : List (Utf16 × Json Lit Utf16), Ascii (writeMembers ms)
  | [] => by rw [writeMembers]; decide
  | (k, x) :: ms => by
    rw [writeMembers]
    exact ascii_cons (by decide) (ascii_append (quote_ascii k)
      (ascii_cons (by decide) (ascii_append (write_ascii x) (writeMembers_ascii ms))))

end

/-! ## The round trip -/

theorem skipBlank_cons {c : Char} (h : isBlank c = false) (cs : List Char) : skipBlank (c :: cs) = c :: cs := by
  rw [skipBlank, List.dropWhile_cons_of_neg (by simp [h])]

theorem readKey_quote (k : Utf16) (cs : List Char) : readKey (quote k ++ ':' :: cs) = some (k, cs) := by
  simp only [quote, List.cons_append, List.append_assoc, List.nil_append]
  rw [readKey, skipBlank_cons (by decide)]
  simp only [if_true, readString_quote, Option.bind_some]
  rw [skipBlank_cons (by decide)]
  simp

theorem writeElems_delim (xs : List (Json Lit Utf16)) (r : List Char) : Delim (writeElems xs ++ r) := by
  cases xs <;> exact delim_cons _ (by decide)

theorem writeMembers_delim (ms : List (Utf16 × Json Lit Utf16)) (r : List Char) : Delim (writeMembers ms ++ r) := by
  cases ms <;> exact delim_cons _ (by decide)

/-- No value begins with a closing bracket or with white space. -/
theorem write_head (v : Json Lit Utf16) : ∃ c cs, write v = c :: cs ∧ isBlank c = false ∧ c ≠ ']' ∧ c ≠ '}' := by
  cases v with
  | null => exact ⟨_, _, by rw [write], by decide, by decide, by decide⟩
  | bool b => cases b <;> exact ⟨_, _, by rw [write], by decide, by decide, by decide⟩
  | num l =>
    obtain ⟨c, cs, he, hc⟩ := l.head
    refine ⟨c, cs, by rw [write, he], ?_⟩
    rcases hc with rfl | hd
    · decide
    · refine ⟨?_, ?_, ?_⟩
      · simp only [isBlank, Bool.or_eq_false_iff, beq_eq_false_iff_ne]
        refine ⟨⟨⟨?_, ?_⟩, ?_⟩, ?_⟩
        all_goals
          intro heq
          subst heq
          exact absurd hd (by decide)
      all_goals
        intro heq
        subst heq
        exact absurd hd (by decide)
  | str us => exact ⟨_, _, by rw [write, quote], by decide, by decide, by decide⟩
  | arr xs => cases xs <;> exact ⟨_, _, by rw [write], by decide, by decide, by decide⟩
  | obj ms => cases ms <;> exact ⟨_, _, by rw [write], by decide, by decide, by decide⟩

theorem keyword_append (word : List Char) (v : Json Lit Utf16) (r : List Char) : keyword word v (word ++ r) = some (v, r) := by
  rw [keyword, if_pos (List.prefix_append word r), List.drop_left]

theorem readValue_num (n : Nat) (l : Lit) {r : List Char} (hr : Delim r) :
    readValue (n + 1) (l.1 ++ r) = some (.num l, r) := by
  have hread := readNumber_lit l hr
  obtain ⟨c, cs, he, hc⟩ := l.head
  rw [he, List.cons_append] at hread ⊢
  have hne : ∀ {k : Char}, k ≠ '-' → k.isDigit = false → c ≠ k := by
    intro k hm hd heq
    subst heq
    rcases hc with h | h
    · exact hm h
    · rw [hd] at h
      cases h
  have hb : isBlank c = false := by
    simp only [isBlank, Bool.or_eq_false_iff, beq_eq_false_iff_ne]
    exact ⟨⟨⟨hne (by decide) (by decide), hne (by decide) (by decide)⟩, hne (by decide) (by decide)⟩,
      hne (by decide) (by decide)⟩
  rw [readValue, skipBlank_cons hb]
  simp only [hne (k := '"') (by decide) (by decide), hne (k := '[') (by decide) (by decide), hread,
    hne (k := '{') (by decide) (by decide), hne (k := 'n') (by decide) (by decide),
    hne (k := 't') (by decide) (by decide), hne (k := 'f') (by decide) (by decide), if_false, Option.map_some]

mutual

theorem readValue_write : ∀ (v : Json Lit Utf16) (n : Nat) (r : List Char), 2 * (write v).length < n → Delim r →
    readValue n (write v ++ r) = some (v, r)
  | v, 0, _, h, _ => by omega
  | .null, n + 1, r, _, _ => by
    rw [write, List.cons_append, readValue, skipBlank_cons (by decide)]
    exact keyword_append ['n', 'u', 'l', 'l'] .null r
  | .bool true, n + 1, r, _, _ => by
    rw [write, List.cons_append, readValue, skipBlank_cons (by decide)]
    exact keyword_append ['t', 'r', 'u', 'e'] (.bool true) r
  | .bool false, n + 1, r, _, _ => by
    rw [write, List.cons_append, readValue, skipBlank_cons (by decide)]
    exact keyword_append ['f', 'a', 'l', 's', 'e'] (.bool false) r
  | .num l, n + 1, r, _, hr => by
    rw [write]
    exact readValue_num n l hr
  | .str us, n + 1, r, _, _ => by
    rw [write, quote, List.cons_append, readValue, skipBlank_cons (by decide), List.append_assoc]
    simp only [if_true, List.cons_append, List.nil_append, readString_quote, Option.map_some]
  | .arr [], n + 1, r, _, _ => by
    rw [write, List.cons_append, readValue, skipBlank_cons (by decide)]
    rfl
  | .arr (x :: xs), n + 1, r, h, _ => by
    rw [write] at h ⊢
    rw [List.cons_append, readValue, skipBlank_cons (by decide)]
    have hx := readElems_write x xs n r (by simp only [List.length_cons] at h; omega)
    obtain ⟨c, cs, he, hb, hc, -⟩ := write_head x
    have hhead : (skipBlank (write x ++ writeElems xs ++ r)).head? ≠ some ']' := by
      rw [he, List.append_assoc, List.cons_append, skipBlank_cons hb]
      simpa using hc
    simp only [Char.reduceEq, if_false, if_true, hhead, hx, Option.map_some]
  | .obj [], n + 1, r, _, _ => by
    rw [write, List.cons_append, readValue, skipBlank_cons (by decide)]
    rfl
  | .obj ((k, x) :: ms), n + 1, r, h, _ => by
    rw [write] at h ⊢
    rw [List.cons_append, readValue, skipBlank_cons (by decide)]
    have hx := readMembers_write k x ms n r (by simp only [List.length_cons] at h; omega)
    have hhead : (skipBlank (quote k ++ ':' :: (write x ++ writeMembers ms) ++ r)).head? ≠ some '}' := by
      rw [quote, List.append_assoc, List.cons_append, skipBlank_cons (by decide)]
      simp
    simp only [Char.reduceEq, if_false, if_true, hhead, hx, Option.map_some]

theorem readElems_write : ∀ (x : Json Lit Utf16) (xs : List (Json Lit Utf16)) (n : Nat) (r : List Char),
    2 * (write x ++ writeElems xs).length ≤ n → readElems n (write x ++ writeElems xs ++ r) = some (x :: xs, r)
  | x, xs, 0, r, h => by
    obtain ⟨c, cs, he, -⟩ := write_head x
    rw [he] at h
    simp at h
  | x, [], n + 1, r, h => by
    rw [List.append_assoc]
    have hx := readValue_write x n (writeElems [] ++ r) (by simp [writeElems] at h; omega) (writeElems_delim [] r)
    rw [readElems, hx, Option.bind_some, writeElems, List.cons_append, skipBlank_cons (by decide)]
    rfl
  | x, y :: xs, n + 1, r, h => by
    rw [List.append_assoc]
    have hx := readValue_write x n (writeElems (y :: xs) ++ r) (by simp [writeElems] at h; omega)
      (writeElems_delim (y :: xs) r)
    have hxs := readElems_write y xs n r (by simp [writeElems] at h ⊢; omega)
    rw [readElems, hx, Option.bind_some, writeElems, List.cons_append, skipBlank_cons (by decide)]
    simp only [if_true, hxs, Option.map_some]

theorem readMembers_write : ∀ (k : Utf16) (x : Json Lit Utf16) (ms : List (Utf16 × Json Lit Utf16)) (n : Nat)
    (r : List Char), 2 * (quote k ++ ':' :: (write x ++ writeMembers ms)).length ≤ n →
    readMembers n (quote k ++ ':' :: (write x ++ writeMembers ms) ++ r) = some ((k, x) :: ms, r)
  | k, x, ms, 0, r, h => by simp [quote] at h
  | k, x, [], n + 1, r, h => by
    rw [List.append_assoc, List.cons_append, List.append_assoc]
    have hx := readValue_write x n (writeMembers [] ++ r) (by simp [writeMembers] at h; omega) (writeMembers_delim [] r)
    rw [readMembers, readKey_quote, Option.bind_some, hx, Option.bind_some, writeMembers, List.cons_append,
      skipBlank_cons (by decide)]
    rfl
  | k, x, (k', y) :: ms, n + 1, r, h => by
    rw [List.append_assoc, List.cons_append, List.append_assoc]
    have hx := readValue_write x n (writeMembers ((k', y) :: ms) ++ r) (by simp [writeMembers] at h; omega)
      (writeMembers_delim ((k', y) :: ms) r)
    have hms := readMembers_write k' y ms n r (by simp [writeMembers] at h ⊢; omega)
    rw [readMembers, readKey_quote, Option.bind_some, hx, Option.bind_some, writeMembers, List.cons_append,
      skipBlank_cons (by decide)]
    simp only [if_true, hms, Option.map_some]

end

/-- What was written is read back. -/
theorem parse_write (v : Json Lit Utf16) : parse (write v) = some v := by
  have h := readValue_write v (2 * (write v).length + 2) [] (by omega) delim_nil
  rw [List.append_nil] at h
  rw [parse, h]
  rfl

abbrev Parsed := Json Lit Utf16

/-! ## Values with exact numbers -/

abbrev Wire := Json ℚ Utf16

def text (s : String) : Wire := .str (ofString s)

def object (fields : List (String × Wire)) : Wire := .obj (fields.map fun f => (ofString f.1, f.2))

theorem get?_object (fields : List (String × Wire)) (key : String) :
    (object fields).get? (ofString key) = (fields.reverse.find? fun f => f.1 = key).map (·.2) := by
  simp only [object, get?, ← List.map_reverse, List.find?_map, Option.map_map, Function.comp_def, ofString_inj]

end Json

/-- The finite doubles: the shortest literal of one, and the double nearest to a literal,
    none when that is past the largest. -/
structure Doubles where
  F : Type
  zero : F
  val : F → ℚ
  repr : F → Json.Lit
  nearest : Json.Lit → Option F

/-- A double is read back from its literal, and so is every integer a double holds exactly. -/
structure Doubles.Lawful (d : Doubles) : Prop where
  nearest_repr : ∀ x, d.nearest (d.repr x) = some x
  nearest_ofInt : ∀ n : Int, n.natAbs ≤ 2 ^ 53 → ∃ x, d.nearest (.ofInt n) = some x ∧ d.val x = n

end CasuyaLive.Lib
