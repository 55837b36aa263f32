/-
  CasuyaLive.Lib.Numeral — the numbers that Go's `strconv.ParseFloat` and JavaScript's
  `Number` read in a text.

  A literal is digits of a base with at most one point among them, and an exponent. Go also
  takes hexadecimal literals, which need their exponent, underscores between digits, and the
  words for infinities and NaN; what it reads is the nearest double, and it answers an error
  beside the infinity when the number is out of range. JavaScript trims the text, reads an
  empty one as 0, and integers in base 2, 8 and 16; its number is exact here, and an infinity
  none.
  - `parseFloat_itoa`: Go reads back an integer it printed, as the nearest double.
-/

import CasuyaLive.Lib.Float64
import CasuyaLive.Lib.Text

namespace CasuyaLive.Lib.Text

/-! ## Literals -/

/-- The value of a digit or letter, as in base 36. -/
def digitValue (c : Char) : ℕ := if c.isDigit then c.toNat - 48 else (lowerChar c).toNat - 87

def isDigitOf (base : ℕ) (c : Char) : Bool :=
  (c.isDigit || (decide ('a' ≤ lowerChar c) && decide (lowerChar c ≤ 'z'))) && digitValue c < base

def natural (base : ℕ) (ds : List Char) : ℕ := ds.foldl (fun n c => base * n + digitValue c) 0

/-- `exponent` reads the digits of the exponent, which stands after the letter `e` and scales
    by `scale`. -/
def literal (base scale : ℕ) (e : Char) (exponent : List Char → ℕ) (cs : List Char) : Option ℚ :=
  let (mantissa, rest) := cs.span (lowerChar · != e)
  let (whole, fraction) := mantissa.span (· != '.')
  let ds := whole ++ fraction.tail
  let (down, es) := signed rest.tail
  if ds.isEmpty || !ds.all (isDigitOf base) then none
  else if !rest.isEmpty && (es.isEmpty || !es.all Char.isDigit) then none
  else
    let unscaled : ℚ := natural base ds / base ^ fraction.tail.length
    some (if down then unscaled / scale ^ exponent es else unscaled * scale ^ exponent es)

/-! ## `strconv.ParseFloat` -/

inductive Saw where
  | start
  | digit
  | underscore
  | other
  deriving DecidableEq

/-- Every underscore stands between two digits. -/
def separates (base : ℕ) : Saw → List Char → Bool
  | saw, [] => saw != .underscore
  | saw, c :: cs =>
    if isDigitOf base c then separates base .digit cs
    else if c = '_' then saw == .digit && separates base .underscore cs
    else saw != .underscore && separates base .other cs

/-- A base prefix counts as a digit. -/
def underscoreOK (cs : List Char) : Bool :=
  match (signed cs).2 with
  | '0' :: x :: ds =>
    if lowerChar x = 'x' then separates 16 .digit ds
    else if lowerChar x = 'b' ∨ lowerChar x = 'o' then separates 10 .digit ds
    else separates 10 .start ('0' :: x :: ds)
  | ds => separates 10 .start ds

/-- From 10000 on it takes no more digits. -/
def cappedExponent (ds : List Char) : ℕ := ds.foldl (fun e c => if e < 10000 then 10 * e + digitValue c else e) 0

def magnitude : List Char → Option ℚ
  | '0' :: x :: ds =>
    if lowerChar x = 'x' then
      if ds.any (lowerChar · == 'p') then literal 16 2 'p' cappedExponent ds else none
    else literal 10 10 'e' cappedExponent ('0' :: x :: ds)
  | ds => literal 10 10 'e' cappedExponent ds

/-- The number a text stands for, before it is rounded. -/
def readFloat (s : String) : Option ℚ :=
  if underscoreOK s.toList then
    let (neg, cs) := signed (s.toList.filter (· != '_'))
    (magnitude cs).map fun q => if neg then -q else q
  else none

def special (s : String) : Option Float64 :=
  let (neg, cs) := signed s.toList
  if equalFold (String.ofList cs) "inf" || equalFold (String.ofList cs) "infinity" then some (.inf neg)
  else if equalFold s "nan" then some .nan
  else none

/-- `strconv.ParseFloat`: the double, and whether there was no error. -/
def parseFloat (s : String) : Float64 × Bool :=
  match special s with
  | some x => (x, true)
  | none =>
    match readFloat s with
    | some q => (.nearest q, (Float64.nearest q).isFinite)
    | none => (0, false)

/-! ## `Number` -/

/-- White space and line ends of JavaScript. -/
def isJsSpace (c : Char) : Bool := (isSpace c && c.toNat != 0x85) || c.toNat == 0xFEFF

def wholeNumber (base : ℕ) (ds : List Char) : Option ℚ :=
  if ds.isEmpty || !ds.all (isDigitOf base) then none else some (natural base ds)

def signedLiteral (cs : List Char) : Option ℚ :=
  let (neg, ds) := signed cs
  (literal 10 10 'e' (natural 10) ds).map fun q => if neg then -q else q

/-- `Number` of a text, before it is rounded; none for NaN and for the word Infinity. -/
def jsNumber (s : String) : Option ℚ :=
  match (trim isJsSpace s).toList with
  | [] => some 0
  | '0' :: x :: ds =>
    if lowerChar x = 'x' then wholeNumber 16 ds
    else if lowerChar x = 'o' then wholeNumber 8 ds
    else if lowerChar x = 'b' then wholeNumber 2 ds
    else signedLiteral ('0' :: x :: ds)
  | cs => signedLiteral cs

/-! ## What was printed -/

theorem digitValue_digit {c : Char} (h : c.isDigit = true) : digitValue c = c.toNat - 48 := if_pos h

theorem lowerChar_digit {c : Char} (h : c.isDigit = true) : lowerChar c = c := by
  simp only [Char.isDigit, Bool.and_eq_true, decide_eq_true_eq] at h
  refine if_neg fun hc => ?_
  have h1 : c.toNat ≤ 57 := h.2
  have h2 : 65 ≤ c.toNat := hc.1
  omega

theorem isDigitOf_digit {c : Char} (h : c.isDigit = true) : isDigitOf 10 c = true := by
  have hlt : c.toNat ≤ 57 := by
    simp only [Char.isDigit, Bool.and_eq_true, decide_eq_true_eq] at h
    exact h.2
  rw [isDigitOf, h, digitValue_digit h, Bool.true_or, Bool.true_and, decide_eq_true_eq]
  omega

theorem natural_digits {ds : List Char} (h : ∀ c ∈ ds, c.isDigit = true) : natural 10 ds = decimal ds := by
  have hfold : ∀ n : ℕ, ds.foldl (fun n c => 10 * n + digitValue c) n = ds.foldl (fun n c => 10 * n + (c.toNat - 48)) n := by
    induction ds with
    | nil => exact fun _ => rfl
    | cons c ds ih =>
      intro n
      rw [List.foldl_cons, List.foldl_cons, digitValue_digit (h c List.mem_cons_self)]
      exact ih (fun d hd => h d (List.mem_cons_of_mem c hd)) _
  exact hfold 0

theorem separates_digits {base : ℕ} {cs : List Char} (h : '_' ∉ cs) {saw : Saw} (hs : saw ≠ .underscore) :
    separates base saw cs = true := by
  induction cs generalizing saw with
  | nil => simpa [separates] using hs
  | cons c cs ih =>
    rw [List.mem_cons, not_or] at h
    rw [separates, ih h.2 (show Saw.digit ≠ .underscore by decide),
      ih h.2 (show Saw.other ≠ .underscore by decide), if_neg (Ne.symm h.1), bne_iff_ne.mpr hs]
    simp

/-- Digits alone. -/
theorem literal_digits {ds : List Char} (hne : ds ≠ []) (h : ∀ c ∈ ds, c.isDigit = true) (exponent : List Char → ℕ)
    (h0 : exponent [] = 0) : literal 10 10 'e' exponent ds = some (decimal ds : ℚ) := by
  have hspan : ∀ {p : Char → Bool}, (∀ c ∈ ds, p c = true) → ds.span p = (ds, []) := by
    intro p hp
    rw [List.span_eq_takeWhile_dropWhile, List.takeWhile_eq_self_iff.mpr hp, List.dropWhile_eq_nil_iff.mpr hp]
  have hexp := hspan (p := (lowerChar · != 'e')) fun c hc => by
    rw [lowerChar_digit (h c hc), bne_iff_ne]
    rintro rfl
    exact absurd (h 'e' hc) (by decide)
  have hdot := hspan (p := (· != '.')) fun c hc => by
    rw [bne_iff_ne]
    rintro rfl
    exact absurd (h '.' hc) (by decide)
  have hall : ds.all (isDigitOf 10) = true := List.all_eq_true.mpr fun c hc => isDigitOf_digit (h c hc)
  have hempty : ds.isEmpty = false := by simpa using hne
  have hunsigned : signed [] = (false, []) := rfl
  simp only [literal, hexp, hdot, hunsigned, List.tail_nil, List.append_nil, hempty, hall, Bool.not_true, Bool.or_self,
    Bool.false_eq_true, if_false, List.isEmpty_nil, Bool.false_and, List.length_nil, pow_zero, div_one, h0, mul_one,
    natural_digits h]

theorem magnitude_digits {ds : List Char} (hne : ds ≠ []) (h : ∀ c ∈ ds, c.isDigit = true) :
    magnitude ds = some (decimal ds : ℚ) := by
  have hread := literal_digits hne h cappedExponent rfl
  unfold magnitude
  split
  · rename_i x es
    have hx : lowerChar x ≠ 'x' := by
      have hd : x.isDigit = true := h x (by simp)
      rw [lowerChar_digit hd]
      rintro rfl
      exact absurd hd (by decide)
    rw [if_neg hx, hread]
  · exact hread

theorem signed_subset (cs : List Char) : (signed cs).2 ⊆ cs := by
  unfold signed
  split
  · exact List.subset_cons_self _ _
  · exact List.subset_cons_self _ _
  · exact List.Subset.refl _

theorem underscoreOK_of_none {cs : List Char} (h : '_' ∉ cs) : underscoreOK cs = true := by
  have hrest : '_' ∉ (signed cs).2 := fun hc => h (signed_subset cs hc)
  unfold underscoreOK
  split
  · rename_i x ds heq
    rw [heq] at hrest
    have hds : '_' ∉ ds := fun hc => hrest (by simp [hc])
    rw [separates_digits hds (by decide), separates_digits hds (by decide), separates_digits hrest (by decide)]
    simp
  · exact separates_digits hrest (by decide)

theorem readFloat_itoa (n : ℤ) : readFloat (itoa n) = some (n : ℚ) := by
  have hdigits : ∀ c ∈ Nat.toDigits 10 n.natAbs, c.isDigit = true := fun c hc => toDigits_digit hc
  have hnone : '_' ∉ (itoa n).toList := by
    intro hc
    rcases itoa_chars n '_' hc with h | h
    · cases h
    · exact absurd h (by decide)
  have hkeep : (itoa n).toList.filter (· != '_') = (itoa n).toList := by
    rw [List.filter_eq_self]
    intro c hc
    rw [bne_iff_ne]
    exact fun e => hnone (e ▸ hc)
  have hsigned : signed (itoa n).toList = (decide (n < 0), Nat.toDigits 10 n.natAbs) := by
    rw [itoa_toList]
    by_cases hn : n < 0
    · simp [hn, signed]
    · rw [if_neg hn, signed_digits hdigits, decide_eq_false hn]
  rw [readFloat, if_pos (underscoreOK_of_none hnone), hkeep, hsigned]
  simp only
  rw [magnitude_digits (by simp) hdigits, decimal_toDigits, Option.map_some]
  by_cases hn : n < 0
  · rw [decide_eq_true hn, if_pos rfl, ← Int.cast_natCast, Int.ofNat_natAbs_of_nonpos hn.le]
    push_cast
    rw [neg_neg]
  · rw [decide_eq_false hn, if_neg Bool.false_ne_true, ← Int.cast_natCast, Int.natAbs_of_nonneg (not_lt.mp hn)]

theorem equalFold_mem {s t : String} (h : equalFold s t = true) {d : Char} (hd : lowerChar d = d) (ht : d ∈ t.toList) :
    ∃ c ∈ s.toList, lowerChar c = d := by
  have heq : s.toList.map lowerChar = t.toList.map lowerChar := eq_of_beq h
  have hmem : d ∈ s.toList.map lowerChar := heq ▸ List.mem_map.mpr ⟨d, ht, hd⟩
  exact List.mem_map.mp hmem

/-- The words have an n. -/
theorem special_itoa (n : ℤ) : special (itoa n) = none := by
  have hno : ∀ c ∈ (itoa n).toList, lowerChar c ≠ 'n' := by
    intro c hc
    rcases itoa_chars n c hc with rfl | hd
    · decide
    · rw [lowerChar_digit hd]
      rintro rfl
      exact absurd hd (by decide)
  have hword : ∀ (cs : List Char) (t : String), cs ⊆ (itoa n).toList → 'n' ∈ t.toList →
      equalFold (String.ofList cs) t = false := by
    intro cs t hcs ht
    by_contra he
    obtain ⟨c, hc, hn⟩ := equalFold_mem (by simpa using he) (by decide) ht
    rw [String.toList_ofList] at hc
    exact hno c (hcs hc) hn
  have hrest := fun t => hword (signed (itoa n).toList).2 t (signed_subset _)
  have hall := hword (itoa n).toList "nan" (List.Subset.refl _) (by decide)
  rw [String.ofList_toList] at hall
  simp only [special, hrest "inf" (by decide), hrest "infinity" (by decide), hall, Bool.or_self, Bool.false_eq_true, if_false]

theorem parseFloat_itoa (n : ℤ) : parseFloat (itoa n) = (.nearest n, (Float64.nearest n).isFinite) := by
  rw [parseFloat, special_itoa, readFloat_itoa]

end CasuyaLive.Lib.Text
