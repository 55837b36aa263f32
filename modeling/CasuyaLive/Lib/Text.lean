/-
  CasuyaLive.Lib.Text — the string operations of the Go and Python standard libraries that
  feed readers use: case, trimming, substring and prefix tests, decimal integers, decimal
  fractions, the bytes of a text. `atoi_itoa`: an integer is read back as it was printed;
  `runes_ascii`, `latin1_ascii`: so is an ASCII text from its bytes, as UTF-8 or byte by byte.

  Case folding is by character. `upperChar` maps the ASCII letters and the two other
  characters whose capital is an ASCII letter (dotless i, long s); the remaining letters
  keep their own form, which no comparison with an ASCII marker can tell.
-/

import Mathlib.Algebra.Ring.Int.Defs
import Mathlib.Algebra.Ring.Nat
import Mathlib.Data.List.Infix
import Mathlib.Data.List.TakeWhile
import Mathlib.Data.Rat.Init

namespace CasuyaLive.Lib.Text

def upperChar (c : Char) : Char :=
  if 'a' ≤ c ∧ c ≤ 'z' then Char.ofNat (c.toNat - 32)
  else if c = 'ı' then 'I'
  else if c = 'ſ' then 'S'
  else c

def toUpper (s : String) : String := String.ofList (s.toList.map upperChar)

def lowerChar (c : Char) : Char := if 'A' ≤ c ∧ c ≤ 'Z' then Char.ofNat (c.toNat + 32) else c

/-- Equality up to the case of ASCII letters. -/
def equalFold (s t : String) : Bool := s.toList.map lowerChar == t.toList.map lowerChar

/-- Unicode white space. -/
def isSpace (c : Char) : Bool :=
  (9 ≤ c.toNat && c.toNat ≤ 13) || c.toNat == 0x20 || c.toNat == 0x85 || c.toNat == 0xA0 || c.toNat == 0x1680 ||
    (0x2000 ≤ c.toNat && c.toNat ≤ 0x200A) || c.toNat == 0x2028 || c.toNat == 0x2029 || c.toNat == 0x202F ||
    c.toNat == 0x205F || c.toNat == 0x3000

/-- What Python's `str.strip` removes: white space and the four separators 0x1C to 0x1F. -/
def isPySpace (c : Char) : Bool := isSpace c || (0x1C ≤ c.toNat && c.toNat ≤ 0x1F)

def trim (space : Char → Bool) (s : String) : String :=
  String.ofList ((s.toList.dropWhile space).reverse.dropWhile space).reverse

def trimSpace (s : String) : String := trim isSpace s

def strip (s : String) : String := trim isPySpace s

def contains (s sub : String) : Bool := decide (sub.toList <:+: s.toList)

def hasPrefix (s pre : String) : Bool := decide (pre.toList <+: s.toList)

/-- The text before the first `c`, or all of it. -/
def before (c : Char) (s : String) : String := String.ofList (s.toList.takeWhile (· != c))

/-- `s` without one trailing `c`. -/
def trimSuffix (c : Char) (s : String) : String :=
  match s.toList.reverse with
  | d :: r => if d = c then String.ofList r.reverse else s
  | [] => s

/-- `s` without the `c`s at its end. -/
def trimRight (c : Char) (s : String) : String := String.ofList (s.toList.reverse.dropWhile (· == c)).reverse

def decimal (ds : List Char) : Nat := ds.foldl (fun n c => 10 * n + (c.toNat - 48)) 0

/-- `strconv.Atoi` on 64-bit integers: the number and whether it was read. What does not fit
    is clamped, and unread. -/
def atoi (s : String) : Int × Bool :=
  let neg := s.toList.head? == some '-'
  let ds := if neg || s.toList.head? == some '+' then s.toList.tail else s.toList
  if ds.isEmpty || !ds.all Char.isDigit then (0, false)
  else if neg then (if decimal ds ≤ 2 ^ 63 then (-(decimal ds : Int), true) else (-2 ^ 63, false))
  else if decimal ds < 2 ^ 63 then ((decimal ds : Int), true)
  else (2 ^ 63 - 1, false)

def itoa (n : Int) : String := toString n

/-- The digits of a Python digit part: single underscores may stand between digits. -/
def digitPart (cs : List Char) : Option (List Char) :=
  if (cs.splitOn '_').all fun g => !g.isEmpty && g.all Char.isDigit then some (cs.filter (· != '_')) else none

/-- Whether a minus stands in front, and what follows the sign. -/
def signed : List Char → Bool × List Char
  | '-' :: cs => (true, cs)
  | '+' :: cs => (false, cs)
  | cs => (false, cs)

/-- Python's `float` of a finite decimal literal in ASCII digits, before it is rounded to a
    double. The words for infinities and for NaN name no rational and read as no number. -/
def float (s : String) : Option ℚ := do
  let (neg, cs) := signed (strip s).toList
  let (mantissa, exp) := cs.span fun c => c != 'e' && c != 'E'
  let (whole, frac) := mantissa.span (· != '.')
  let w ← if whole.isEmpty then some [] else digitPart whole
  let f ← if frac.tail.isEmpty then some [] else digitPart frac.tail
  let (down, ds) := signed exp.tail
  let e ← if exp.isEmpty then some [] else digitPart ds
  if w.isEmpty && f.isEmpty then none
  else
    let unscaled : ℚ := decimal (w ++ f) / 10 ^ f.length
    let scaled := if down then unscaled / 10 ^ decimal e else unscaled * 10 ^ decimal e
    some (if neg then -scaled else scaled)

theorem trim_eq_self {space : Char → Bool} {s : String} (h : ∀ c ∈ s.toList, space c = false) : trim space s = s := by
  have hkeep : ∀ l : List Char, (∀ c ∈ l, space c = false) → l.dropWhile space = l := by
    intro l hl
    cases l with
    | nil => rfl
    | cons c l => simp [hl c List.mem_cons_self]
  rw [trim, hkeep _ h, hkeep _ fun c hc => h c (List.mem_reverse.mp hc), List.reverse_reverse, String.ofList_toList]

/-- A text that neither begins nor ends with white space. -/
theorem trim_ends {space : Char → Bool} {cs : List Char} (hfirst : ∀ c ∈ cs.head?, space c = false)
    (hlast : ∀ c ∈ cs.getLast?, space c = false) : trim space (String.ofList cs) = String.ofList cs := by
  have hkeep : ∀ l : List Char, (∀ c ∈ l.head?, space c = false) → l.dropWhile space = l := by
    intro l hl
    cases l with
    | nil => rfl
    | cons c l => simp [hl c rfl]
  rw [trim, String.toList_ofList, hkeep _ hfirst, hkeep _ (by rwa [List.head?_reverse]), List.reverse_reverse]

/-- A text with another character than white space is not blank. -/
theorem trim_ne_blank {space : Char → Bool} {s : String} {c : Char} (hc : c ∈ s.toList) (h : space c = false) :
    trim space s ≠ "" := by
  intro he
  have hnil : ((s.toList.dropWhile space).reverse.dropWhile space) = [] := by
    rw [← List.reverse_eq_nil_iff, ← String.toList_ofList (l := ((s.toList.dropWhile space).reverse.dropWhile space).reverse)]
    exact congrArg String.toList he
  rw [List.dropWhile_eq_nil_iff] at hnil
  have hall : ∀ d ∈ s.toList.dropWhile space, space d = true := fun d hd => hnil d (List.mem_reverse.mpr hd)
  have hsplit := List.takeWhile_append_dropWhile (p := space) (l := s.toList)
  rw [← hsplit] at hc
  rcases List.mem_append.mp hc with hc | hc
  · rw [List.mem_takeWhile_imp hc] at h
    cases h
  · rw [hall c hc] at h
    cases h

theorem trimRight_replicate {c : Char} {cs : List Char} (h : c ∉ cs) (n : Nat) :
    trimRight c (String.ofList (cs ++ List.replicate n c)) = String.ofList cs := by
  have hkeep : cs.reverse.dropWhile (· == c) = cs.reverse := by
    cases hr : cs.reverse with
    | nil => rfl
    | cons d ds =>
      have hd : d ∈ cs := List.mem_reverse.mp (hr ▸ List.mem_cons_self)
      have hne : (d == c) = false := beq_eq_false_iff_ne.mpr fun e => h (e ▸ hd)
      rw [List.dropWhile_cons_of_neg (by simp [hne])]
  have hdrop : (List.replicate n c ++ cs.reverse).dropWhile (· == c) = cs.reverse := by
    induction n with
    | zero => exact hkeep
    | succ n ih =>
      rw [List.replicate_succ, List.cons_append, List.dropWhile_cons_of_pos (by simp)]
      exact ih
  rw [trimRight, String.toList_ofList, List.reverse_append, List.reverse_replicate, hdrop, List.reverse_reverse]

theorem upperChar_space {c : Char} (h : isPySpace c = true) : upperChar c = c := by
  unfold upperChar
  split
  · rename_i hc
    have h1 : 'a'.toNat ≤ c.toNat := hc.1
    have h2 : c.toNat ≤ 'z'.toNat := hc.2
    have e1 : 'a'.toNat = 97 := rfl
    have e2 : 'z'.toNat = 122 := rfl
    simp only [isPySpace, isSpace, Bool.or_eq_true, Bool.and_eq_true, decide_eq_true_eq, beq_iff_eq] at h
    omega
  · split
    · rename_i hc
      subst hc
      exact absurd h (by decide)
    · split
      · rename_i hc
        subst hc
        exact absurd h (by decide)
      · rfl

/-- A text whose capitals hold no white space is stripped already. -/
theorem strip_of_upper {s t : String} (ht : t.toList.any isPySpace = false) (h : toUpper s = t) : strip s = s := by
  apply trim_eq_self
  intro c hc
  by_contra hs
  have hspace : isPySpace c = true := by simpa using hs
  have hmem : c ∈ t.toList := by
    rw [← h, toUpper, String.toList_ofList, ← upperChar_space hspace]
    exact List.mem_map_of_mem hc
  exact absurd hspace (List.any_eq_false.mp ht c hmem)

theorem itoa_toList (n : Int) :
    (itoa n).toList = if n < 0 then '-' :: Nat.toDigits 10 n.natAbs else Nat.toDigits 10 n.natAbs := by
  cases n with
  | ofNat n =>
    have hn : ¬Int.ofNat n < 0 := Int.not_lt.mpr (Int.natCast_nonneg n)
    rw [if_neg hn]
    exact Nat.toList_repr
  | negSucc n =>
    rw [if_pos (Int.negSucc_lt_zero n)]
    show ("-" ++ (n + 1).repr).toList = _
    rw [String.toList_append, Nat.toList_repr]
    rfl

theorem decimal_toDigits (n : Nat) : decimal (Nat.toDigits 10 n) = n := Nat.ofDigitChars_ten_toDigits

theorem toDigits_digit {n : Nat} {c : Char} (h : c ∈ Nat.toDigits 10 n) : c.isDigit = true :=
  Nat.isDigit_of_mem_toDigits (by decide) (by decide) h

/-- No leading zero. -/
theorem toDigits_cons {n : Nat} (h : n ≠ 0) : ∃ c cs, Nat.toDigits 10 n = c :: cs ∧ c ≠ '0' := by
  induction n using Nat.strong_induction_on with
  | _ n ih =>
    by_cases hn : n < 10
    · exact ⟨_, _, Nat.toDigits_of_lt_base hn, by simpa using h⟩
    · obtain ⟨c, cs, he, hc⟩ := ih (n / 10) (by omega) (by omega)
      refine ⟨c, cs ++ [(n % 10).digitChar], ?_, hc⟩
      rw [Nat.toDigits_of_base_le (by decide) (by omega), he]
      rfl

/-- What was printed is read back. -/
theorem atoi_itoa {n : Int} (hlo : -2 ^ 63 ≤ n) (hhi : n < 2 ^ 63) : atoi (itoa n) = (n, true) := by
  have hall : (Nat.toDigits 10 n.natAbs).all Char.isDigit = true := List.all_eq_true.mpr fun c hc => toDigits_digit hc
  have hempty : (Nat.toDigits 10 n.natAbs).isEmpty = false := by simp
  have hdec := decimal_toDigits n.natAbs
  unfold atoi
  rw [itoa_toList]
  by_cases hn : n < 0
  · simp only [if_pos hn, List.head?_cons, List.tail_cons, beq_self_eq_true, Bool.true_or, if_true, hempty, hall,
      hdec]
    rw [if_neg (by simp), if_pos (by omega)]
    congr 1
    omega
  · have hhead : ∀ c, c.isDigit = false → ((Nat.toDigits 10 n.natAbs).head? == some c) = false := by
      intro c hc
      rw [beq_eq_false_iff_ne]
      intro he
      rw [toDigits_digit (List.mem_of_mem_head? he)] at hc
      cases hc
    simp only [if_neg hn, hhead '-' (by decide), hhead '+' (by decide), Bool.or_false, Bool.false_eq_true, if_false,
      hempty, hall, hdec]
    rw [if_neg (by simp), if_pos (by omega)]
    congr 1
    omega

theorem signed_digits {cs : List Char} (h : ∀ c ∈ cs, c.isDigit = true) : signed cs = (false, cs) := by
  rw [signed]
  · exact fun ds e => absurd (h '-' (e ▸ List.mem_cons_self)) (by decide)
  · exact fun ds e => absurd (h '+' (e ▸ List.mem_cons_self)) (by decide)

theorem digitPart_digits {cs : List Char} (hne : cs ≠ []) (h : ∀ c ∈ cs, c.isDigit = true) : digitPart cs = some cs := by
  have hnone : '_' ∉ cs := fun hc => absurd (h _ hc) (by decide)
  have hkeep : cs.filter (· != '_') = cs := by
    rw [List.filter_eq_self]
    intro c hc
    rw [bne_iff_ne]
    exact fun e => hnone (e ▸ hc)
  rw [digitPart, List.splitOn_eq_singleton hnone, hkeep, if_pos]
  simpa [hne] using h

theorem itoa_chars (n : Int) : ∀ c ∈ (itoa n).toList, c = '-' ∨ c.isDigit = true := by
  intro c hc
  rw [itoa_toList] at hc
  split at hc
  · exact (List.mem_cons.mp hc).imp_right toDigits_digit
  · exact Or.inr (toDigits_digit hc)

theorem isPySpace_digit {c : Char} (h : c.isDigit = true) : isPySpace c = false := by
  simp only [Char.isDigit, Bool.and_eq_true, decide_eq_true_eq] at h
  have h1 : 48 ≤ c.toNat := h.1
  have h2 : c.toNat ≤ 57 := h.2
  simp only [isPySpace, isSpace, Bool.or_eq_false_iff, Bool.and_eq_false_iff, decide_eq_false_iff_not, beq_eq_false_iff_ne]
  omega

theorem itoa_space (n : Int) : ∀ c ∈ (itoa n).toList, isPySpace c = false := by
  intro c hc
  rcases itoa_chars n c hc with rfl | hd
  · decide
  · exact isPySpace_digit hd

theorem float_itoa (n : Int) : float (itoa n) = some n := by
  have hdigits : ∀ c ∈ Nat.toDigits 10 n.natAbs, c.isDigit = true := fun c hc => toDigits_digit hc
  have hne : ∀ {k : Char}, k.isDigit = false → ∀ c ∈ Nat.toDigits 10 n.natAbs, c ≠ k := by
    intro k hk c hc e
    rw [e] at hc
    rw [hdigits k hc] at hk
    cases hk
  have hsigned : signed (strip (itoa n)).toList = (decide (n < 0), Nat.toDigits 10 n.natAbs) := by
    rw [strip, trim_eq_self (itoa_space n), itoa_toList]
    by_cases hn : n < 0
    · simp [hn, signed]
    · rw [if_neg hn, signed_digits hdigits, decide_eq_false hn]
  have hwhole : ∀ {p : Char → Bool}, (∀ c ∈ Nat.toDigits 10 n.natAbs, p c = true) →
      (Nat.toDigits 10 n.natAbs).span p = (Nat.toDigits 10 n.natAbs, []) := by
    intro p hp
    rw [List.span_eq_takeWhile_dropWhile, List.takeWhile_eq_self_iff.mpr hp, List.dropWhile_eq_nil_iff.mpr hp]
  have hexp := hwhole (p := fun c => c != 'e' && c != 'E') fun c hc => by
    simp [hne (k := 'e') (by decide) c hc, hne (k := 'E') (by decide) c hc]
  have hdot := hwhole (p := fun c => c != '.') fun c hc => by simp [hne (k := '.') (by decide) c hc]
  have hnonempty : Nat.toDigits 10 n.natAbs ≠ [] := by simp
  have hread := digitPart_digits hnonempty hdigits
  have hunsigned : signed [] = (false, []) := rfl
  have hempty : (Nat.toDigits 10 n.natAbs).isEmpty = false := by simp
  have hscale : ∀ x : ℚ, x / 10 ^ 0 * 10 ^ decimal [] = x := by
    intro x
    show x / 10 ^ 0 * 10 ^ 0 = x
    rw [Rat.pow_zero, Rat.mul_one, Rat.div_def, Rat.inv_eq_of_mul_eq_one (Rat.mul_one 1), Rat.mul_one]
  simp only [float, hsigned, hexp, hdot, hread, List.tail_nil, List.isEmpty_nil, hunsigned, if_true, Option.bind_eq_bind,
    Option.bind_some, hempty, List.append_nil, decimal_toDigits, List.length_nil, Bool.false_eq_true, if_false, Bool.false_and,
    hscale, decide_eq_true_eq]
  by_cases hn : n < 0
  · rw [if_pos hn]
    show some (-((n.natAbs : ℤ) : ℚ)) = some (n : ℚ)
    rw [Int.ofNat_natAbs_of_nonpos (by omega), Rat.intCast_neg, Rat.neg_neg]
  · rw [if_neg hn]
    show some ((n.natAbs : ℤ) : ℚ) = some (n : ℚ)
    rw [Int.natAbs_of_nonneg (by omega)]

theorem atoi_lt (s : String) : (atoi s).1 < 2 ^ 63 := by
  unfold atoi
  simp only
  generalize (if (s.toList.head? == some '-' || s.toList.head? == some '+') = true then s.toList.tail else s.toList) = ds
  by_cases hd : (ds.isEmpty || !ds.all Char.isDigit) = true
  · rw [if_pos hd]
    decide
  · rw [if_neg hd]
    by_cases hn : (s.toList.head? == some '-') = true
    · rw [if_pos hn]
      split <;> simp only <;> omega
    · rw [if_neg hn]
      split <;> simp only <;> omega

/-- A text that ends in another character is another text. -/
theorem ne_of_last {s t : String} (h : s.toList.getLast? ≠ t.toList.getLast?) : s ≠ t :=
  fun e => h (by rw [e])

theorem last_append (s : String) (c : Char) : (s ++ String.ofList [c]).toList.getLast? = some c := by
  simp

/-! ## Bytes -/

def utf8 (cs : List Char) : List UInt8 := cs.flatMap String.utf8EncodeChar

def isTail (b : UInt8) : Bool := 0x80 ≤ b && b ≤ 0xBF

/-- The character in front and how many bytes it takes; the replacement character for a byte
    that begins none. -/
def decodeRune : List UInt8 → Char × Nat
  | [] => ('\uFFFD', 1)
  | a :: bs =>
    let b := bs.getD 0 0
    let c := bs.getD 1 0
    let d := bs.getD 2 0
    if a < 0x80 then (Char.ofNat a.toNat, 1)
    else if 0xC2 ≤ a ∧ a ≤ 0xDF ∧ isTail b then (Char.ofNat (a.toNat % 32 * 64 + b.toNat % 64), 2)
    else if 0xE0 ≤ a ∧ a ≤ 0xEF ∧ (a = 0xE0 → 0xA0 ≤ b) ∧ (a = 0xED → b ≤ 0x9F) ∧ isTail b ∧ isTail c then
      (Char.ofNat (a.toNat % 16 * 4096 + b.toNat % 64 * 64 + c.toNat % 64), 3)
    else if 0xF0 ≤ a ∧ a ≤ 0xF4 ∧ (a = 0xF0 → 0x90 ≤ b) ∧ (a = 0xF4 → b ≤ 0x8F) ∧ isTail b ∧ isTail c ∧ isTail d then
      (Char.ofNat (a.toNat % 8 * 262144 + b.toNat % 64 * 4096 + c.toNat % 64 * 64 + d.toNat % 64), 4)
    else ('\uFFFD', 1)

def runesIn : Nat → List UInt8 → List Char
  | 0, _ => []
  | _ + 1, [] => []
  | n + 1, a :: bs => (decodeRune (a :: bs)).1 :: runesIn n ((a :: bs).drop (decodeRune (a :: bs)).2)

/-- The text of bytes that should be UTF-8, as Go reads it; a character takes a byte or more. -/
def runes (bs : List UInt8) : List Char := runesIn bs.length bs

/-- Each byte a character of its own. -/
def latin1 (bs : List UInt8) : List Char := bs.map fun b => Char.ofNat b.toNat

theorem utf8_ascii {cs : List Char} (h : ∀ c ∈ cs, c.toNat < 128) : utf8 cs = cs.map fun c => c.toNat.toUInt8 := by
  induction cs with
  | nil => rfl
  | cons c cs ih =>
    have hc : String.utf8EncodeChar c = [c.toNat.toUInt8] := if_pos (Nat.le_of_lt_succ (h c List.mem_cons_self))
    have hcs := ih fun d hd => h d (List.mem_cons_of_mem _ hd)
    rw [utf8] at hcs ⊢
    rw [List.flatMap_cons, hc, hcs]
    rfl

theorem toNat_byte {c : Char} (h : c.toNat < 128) : (c.toNat.toUInt8).toNat = c.toNat := by
  rw [Nat.toUInt8_eq, UInt8.toNat_ofNat']
  omega

theorem latin1_ascii {cs : List Char} (h : ∀ c ∈ cs, c.toNat < 128) : latin1 (utf8 cs) = cs := by
  have hid : ∀ c ∈ cs, Char.ofNat (c.toNat.toUInt8).toNat = c := by
    intro c hc
    rw [toNat_byte (h c hc), Char.ofNat_toNat]
  rw [utf8_ascii h, latin1, List.map_map]
  exact (List.map_congr_left hid).trans (List.map_id cs)

theorem runesIn_ascii {cs : List Char} (h : ∀ c ∈ cs, c.toNat < 128) :
    runesIn cs.length (cs.map fun c => c.toNat.toUInt8) = cs := by
  induction cs with
  | nil => rfl
  | cons c cs ih =>
    have hc := h c List.mem_cons_self
    have hcs := ih fun d hd => h d (List.mem_cons_of_mem _ hd)
    have hrune : decodeRune (c.toNat.toUInt8 :: cs.map fun c => c.toNat.toUInt8) = (c, 1) := by
      have hlt : c.toNat.toUInt8 < 0x80 := UInt8.lt_iff_toNat_lt.mpr (by rw [toNat_byte hc]; exact hc)
      rw [decodeRune, if_pos hlt, toNat_byte hc, Char.ofNat_toNat]
    rw [List.map_cons, List.length_cons, runesIn, hrune, List.drop_one, List.tail_cons, hcs]

theorem runes_ascii {cs : List Char} (h : ∀ c ∈ cs, c.toNat < 128) : runes (utf8 cs) = cs := by
  have hr := runesIn_ascii h
  rw [runes, utf8_ascii h, List.length_map, hr]

end CasuyaLive.Lib.Text
