import ForexSuite.TextNumbers
import Mathlib.Data.Int.Log
import Mathlib.Data.Rat.Floor
import Mathlib.Tactic.Linarith

/-!
# The doubles read from texts

`std::stod` reads the number at the start of a text as `strtod` does: behind white
space and a sign a decimal or a hexadecimal number, an infinity or a NaN, in small
letters or capitals. A number is rounded to the nearest double, ties to even, and is
out of range where that exceeds the largest one.

Whether a number below the smallest normal double is reported as out of range is left
to the C library, and is a parameter here. The two zeros are one, and so are all NaNs.
-/
namespace ForexSuite.TextDoubles

open TextNumbers

inductive Double where
  | finite (value : ℚ)
  | infinity (negative : Bool)
  | nan
deriving DecidableEq

/-! ### The scanner -/

/-- The value of a hexadecimal digit, and sixteen for any other character. -/
def hexValue (c : Char) : ℕ :=
  if isDigit c then digitValue c
  else if 97 ≤ c.toLower.toNat ∧ c.toLower.toNat ≤ 102 then c.toLower.toNat - 87
  else 16

/-- The base of the digits, that of the exponent, and the letter in front of the exponent. -/
structure Radix where
  base : ℕ
  exponentBase : ℕ
  mark : Char

def decimal : Radix := ⟨10, 10, 'e'⟩
def hexadecimal : Radix := ⟨16, 2, 'p'⟩

namespace Radix

variable (r : Radix)

def isDigit (c : Char) : Bool := hexValue c < r.base

def value (digits : Text) : ℕ := digits.foldl (fun n c => r.base * n + hexValue c) 0

/-- The digits behind a point, and what follows them. -/
def scanFraction : Text → Text × Text
  | '.' :: t => (t.takeWhile r.isDigit, t.dropWhile r.isDigit)
  | t => ([], t)

/-- An exponent without digits is none. -/
def scanExponent : Text → ℤ
  | c :: t =>
      if c.toLower = r.mark then
        signed (scanSign t).1 (decimalValue ((scanSign t).2.takeWhile TextNumbers.isDigit))
      else 0
  | [] => 0

/-- The number at the start of a text, which has a digit in front of the point or behind it. -/
def scan (t : Text) : Option ℚ :=
  let fraction := r.scanFraction (t.dropWhile r.isDigit)
  let digits := t.takeWhile r.isDigit ++ fraction.1
  if digits = [] then none
  else some (r.value digits / (r.base : ℚ) ^ fraction.1.length *
    (r.exponentBase : ℚ) ^ r.scanExponent fraction.2)

end Radix

/-- Behind `0x` without a hexadecimal number the zero alone is read. -/
def scanNumber : Text → Option ℚ
  | '0' :: c :: t =>
      if c.toLower = 'x' then some ((hexadecimal.scan t).getD 0) else decimal.scan ('0' :: c :: t)
  | t => decimal.scan t

def startsWith (word t : Text) : Bool := (t.take word.length).map Char.toLower = word

/-- The number at the start of a text, before it is rounded. -/
def scanDouble (t : Text) : Option Double :=
  let s := scanSign (t.dropWhile isSpace)
  if startsWith "inf".toList s.2 then some (.infinity s.1)
  else if startsWith "nan".toList s.2 then some .nan
  else (scanNumber s.2).map fun q => .finite (if s.1 then -q else q)

/-! ### Rounding -/

/-- The nearest integer, the even one where there are two. -/
def nearestEven (x : ℚ) : ℤ :=
  if 1 < 2 * (x - ⌊x⌋) ∨ 2 * (x - ⌊x⌋) = 1 ∧ ⌊x⌋ % 2 = 1 then ⌊x⌋ + 1 else ⌊x⌋

/-- The distance of the doubles around a number: 52 bits follow the first one, or the bits above
the least double. -/
def quantum (q : ℚ) : ℚ := 2 ^ (max (-1022) (Int.log 2 |q|) - 52)

def nearestDouble (q : ℚ) : ℚ := nearestEven (q / quantum q) * quantum q

/-- Half a quantum above the largest double. -/
def overflowThreshold : ℚ := (2 ^ 53 - 1 / 2) * 2 ^ 971

namespace Double

/-- What `strtod` does not report as out of range. -/
def InRange (underflows : ℚ → Bool) : Double → Prop
  | .finite q =>
      |q| < overflowThreshold ∧ (0 < |q| ∧ |q| < 2 ^ (-1022 : ℤ) → underflows q = false)
  | _ => True

instance (underflows : ℚ → Bool) : (d : Double) → Decidable (d.InRange underflows)
  | .finite _ => inferInstanceAs (Decidable (_ ∧ (_ → _)))
  | .infinity _ => .isTrue trivial
  | .nan => .isTrue trivial

def rounded : Double → Double
  | .finite q => .finite (nearestDouble q)
  | d => d

end Double

def stod (underflows : ℚ → Bool) (t : Text) : Except NumberError Double :=
  match scanDouble t with
  | none => .error .invalidArgument
  | some d => if d.InRange underflows then .ok d.rounded else .error .outOfRange

/-! ### Which texts are read -/

theorem stod_eq_ok_iff {underflows : ℚ → Bool} {t : Text} {d : Double} :
    stod underflows t = .ok d ↔
      ∃ e, scanDouble t = some e ∧ e.InRange underflows ∧ d = e.rounded := by
  unfold stod
  cases scanDouble t with
  | none => simp
  | some e =>
      by_cases he : e.InRange underflows
      · simp [he, eq_comm]
      · simp [he]

/-- A digit, or a point and a digit. -/
def StartsWithDigit (t : Text) : Prop :=
  ∃ c rest, isDigit c = true ∧ (t = c :: rest ∨ t = '.' :: c :: rest)

/-- Behind white space and a sign there is a number, an infinity or a NaN. -/
def StartsWithDouble (t : Text) : Prop :=
  let behind := (scanSign (t.dropWhile isSpace)).2
  StartsWithDigit behind ∨ startsWith "inf".toList behind = true ∨
    startsWith "nan".toList behind = true

theorem decimal_isDigit : decimal.isDigit = isDigit := by
  funext c
  unfold Radix.isDigit hexValue
  change decide (_ < 10) = _
  by_cases hc : isDigit c = true
  · have hvalue : digitValue c < 10 := by
      simp only [isDigit, Bool.and_eq_true, decide_eq_true_eq] at hc
      unfold digitValue
      omega
    rw [if_pos hc, hc]
    exact decide_eq_true hvalue
  · rw [if_neg hc, (Bool.not_eq_true _).mp hc]
    split_ifs with hletter
    · exact decide_eq_false (by omega)
    · rfl

theorem takeWhile_ne_nil_iff {p : Char → Bool} {t : Text} :
    t.takeWhile p ≠ [] ↔ ∃ c rest, p c = true ∧ t = c :: rest := by
  cases t with
  | nil => simp
  | cons c rest => by_cases hc : p c = true <;> simp [hc]

theorem scanFraction_ne_nil_iff {r : Radix} {t : Text} :
    (r.scanFraction t).1 ≠ [] ↔ ∃ c rest, r.isDigit c = true ∧ t = '.' :: c :: rest := by
  unfold Radix.scanFraction
  split
  · simp only [takeWhile_ne_nil_iff, List.cons.injEq, true_and]
  · rename_i hpoint
    constructor
    · intro h
      exact absurd rfl h
    · rintro ⟨c, rest, -, ht⟩
      exact absurd ht (hpoint _)

theorem decimal_scan_isSome_iff {t : Text} :
    (decimal.scan t).isSome = true ↔ StartsWithDigit t := by
  have hscan : (decimal.scan t).isSome = true ↔ t.takeWhile isDigit ≠ [] ∨
      (decimal.scanFraction (t.dropWhile isDigit)).1 ≠ [] := by
    unfold Radix.scan
    rw [decimal_isDigit]
    by_cases hdigits : t.takeWhile isDigit ++
        (decimal.scanFraction (t.dropWhile isDigit)).1 = []
    · rw [if_pos hdigits]
      obtain ⟨hwhole, hfraction⟩ := List.append_eq_nil_iff.mp hdigits
      simp [hwhole, hfraction]
    · rw [if_neg hdigits]
      exact iff_of_true rfl (not_and_or.mp fun h => hdigits (List.append_eq_nil_iff.mpr h))
  rw [hscan, takeWhile_ne_nil_iff, scanFraction_ne_nil_iff, decimal_isDigit]
  constructor
  · rintro (⟨c, rest, hc, rfl⟩ | ⟨c, rest, hc, ht⟩)
    · exact ⟨c, rest, hc, Or.inl rfl⟩
    · by_cases hnil : t.takeWhile isDigit = []
      · refine ⟨c, rest, hc, Or.inr ?_⟩
        rw [← ht, ← List.nil_append (t.dropWhile isDigit), ← hnil,
          List.takeWhile_append_dropWhile]
      · obtain ⟨d, rest', hd, rfl⟩ := takeWhile_ne_nil_iff.mp hnil
        exact ⟨d, rest', hd, Or.inl rfl⟩
  · rintro ⟨c, rest, hc, rfl | rfl⟩
    · exact Or.inl ⟨c, rest, hc, rfl⟩
    · exact Or.inr ⟨c, rest, hc, rfl⟩

theorem scanNumber_isSome_iff {t : Text} :
    (scanNumber t).isSome = true ↔ StartsWithDigit t := by
  unfold scanNumber
  split
  · rename_i c rest
    split_ifs
    · exact iff_of_true rfl ⟨'0', c :: rest, by decide, Or.inl rfl⟩
    · exact decimal_scan_isSome_iff
  · exact decimal_scan_isSome_iff

theorem scanDouble_isSome_iff {t : Text} :
    (scanDouble t).isSome = true ↔ StartsWithDouble t := by
  unfold scanDouble StartsWithDouble
  dsimp only
  generalize scanSign (t.dropWhile isSpace) = s
  by_cases hinf : startsWith "inf".toList s.2 = true
  · rw [if_pos hinf]
    exact iff_of_true rfl (Or.inr (Or.inl hinf))
  rw [if_neg hinf]
  by_cases hnan : startsWith "nan".toList s.2 = true
  · rw [if_pos hnan]
    exact iff_of_true rfl (Or.inr (Or.inr hnan))
  rw [if_neg hnan, Option.isSome_map, scanNumber_isSome_iff, or_iff_left (not_or.mpr ⟨hinf, hnan⟩)]

/-- What a text has to be for `std::stod` to return. -/
theorem exists_stod_iff {underflows : ℚ → Bool} {t : Text} :
    (∃ d, stod underflows t = .ok d) ↔
      StartsWithDouble t ∧ ∀ e, scanDouble t = some e → e.InRange underflows := by
  rw [← scanDouble_isSome_iff, Option.isSome_iff_exists]
  simp only [stod_eq_ok_iff]
  constructor
  · rintro ⟨d, e, he, hrange, -⟩
    refine ⟨⟨e, he⟩, fun e' he' => ?_⟩
    rw [he] at he'
    exact Option.some.inj he' ▸ hrange
  · rintro ⟨⟨e, he⟩, hrange⟩
    exact ⟨_, e, he, hrange e he, rfl⟩

/-! ### Integers -/

theorem toLower_of_isDigit {c : Char} (h : isDigit c = true) : c.toLower = c := by
  simp only [isDigit, Bool.and_eq_true, decide_eq_true_eq] at h
  unfold Char.toLower
  rw [dif_neg]
  rintro ⟨hge, -⟩
  have hval : (65 : ℕ) ≤ c.toNat := hge
  omega

/-- No word of letters is read where a digit comes first. -/
theorem startsWith_digit {first c : Char} {word rest : Text} (hfirst : isDigit first = false)
    (hc : isDigit c = true) : startsWith (first :: word) (c :: rest) = false := by
  refine decide_eq_false fun h => ?_
  have hhead : c.toLower = first := (List.cons.inj h).1
  rw [toLower_of_isDigit hc] at hhead
  rw [hhead, hfirst] at hc
  exact Bool.false_ne_true hc

theorem decimal_value {digits : Text} (hd : ∀ c ∈ digits, isDigit c = true) :
    decimal.value digits = decimalValue digits := by
  unfold Radix.value decimalValue
  refine List.foldl_ext _ _ 0 fun n c hc => ?_
  rw [hexValue, if_pos (hd c hc)]
  rfl

theorem decimal_scan_digits {digits : Text} (hne : digits ≠ [])
    (hd : ∀ c ∈ digits, isDigit c = true) :
    decimal.scan digits = some (decimalValue digits : ℚ) := by
  have htake : digits.takeWhile isDigit = digits := List.takeWhile_eq_self_iff.mpr hd
  have hdrop : digits.dropWhile isDigit = [] := List.dropWhile_eq_nil_iff.mpr hd
  unfold Radix.scan
  rw [decimal_isDigit, htake, hdrop]
  simp [Radix.scanFraction, Radix.scanExponent, hne, decimal_value hd]

/-- Digits alone are read as the natural number that they write. -/
theorem scanDouble_digits {digits : Text} (hne : digits ≠ [])
    (hd : ∀ c ∈ digits, isDigit c = true) :
    scanDouble digits = some (.finite (decimalValue digits)) := by
  obtain ⟨c, ds, rfl⟩ := List.exists_cons_of_ne_nil hne
  have hc := hd c List.mem_cons_self
  have hsign : scanSign ((c :: ds).dropWhile isSpace) = (false, c :: ds) := by
    rw [List.dropWhile_cons_of_neg (by simp [isSpace_of_isDigit hc])]
    have hdigits : scanSign ((c :: ds) ++ []) = (false, (c :: ds) ++ []) := scanSign_digits hne hd
    rwa [List.append_nil] at hdigits
  have hnumber : scanNumber (c :: ds) = some (decimalValue (c :: ds) : ℚ) := by
    unfold scanNumber
    split
    · rename_i d rest heq
      obtain ⟨rfl, rfl⟩ := List.cons.inj heq
      have hd' := hd d (by simp)
      rw [toLower_of_isDigit hd', if_neg]
      · exact decimal_scan_digits hne hd
      · rintro rfl
        exact absurd hd' (by decide)
    · exact decimal_scan_digits hne hd
  unfold scanDouble
  rw [hsign]
  dsimp only
  rw [show "inf".toList = 'i' :: ['n', 'f'] from rfl,
    show "nan".toList = 'n' :: ['a', 'n'] from rfl, startsWith_digit (by decide) hc,
    startsWith_digit (by decide) hc, hnumber]
  rfl

/-- Natural numbers of at most 53 bits are in range. -/
theorem natCast_inRange {underflows : ℚ → Bool} {n : ℕ} (h : n < 2 ^ 53) :
    (Double.finite n).InRange underflows := by
  have habs : |(n : ℚ)| = n := abs_of_nonneg n.cast_nonneg
  have hn : (n : ℚ) ≤ 2 ^ 53 - 1 := by
    have hle : (n : ℚ) + 1 ≤ (2 ^ 53 : ℕ) := by exact_mod_cast h
    push_cast at hle
    linarith
  have hpow : (1 : ℚ) ≤ 2 ^ 971 := one_le_pow₀ (by norm_num)
  rw [Double.InRange, habs]
  constructor
  · calc (n : ℚ) < 2 ^ 53 - 1 / 2 := by linarith
      _ ≤ (2 ^ 53 - 1 / 2) * 2 ^ 971 := le_mul_of_one_le_right (by norm_num) hpow
  · rintro ⟨hpos, hsmall⟩
    have hone : (1 : ℚ) ≤ n := by exact_mod_cast hpos
    have hnormal : (2 : ℚ) ^ (-1022 : ℤ) ≤ 1 := zpow_le_one_of_nonpos₀ (by norm_num) (by norm_num)
    linarith

end ForexSuite.TextDoubles
