import Mathlib.Data.Nat.Digits.Defs
import Mathlib.Data.List.Induction
import Mathlib.Data.List.TakeWhile
import Mathlib.Tactic.Ring

/-!
# Texts and the integers read from them

Both programs that parse numbers (`std::stoi` in the expression evaluator and
`std::stoul` in the trade copier) use the same scanner of the C library: leading
white space is skipped, one sign may follow, and the digits after it are read up
to the first other character. The two functions differ in the range they accept
only. On the target platform `int`, `long` and `unsigned long` have 32 bits.
-/
namespace ForexSuite.TextNumbers

abbrev Text := List Char

/-- `isspace` in the C locale. -/
def isSpace (c : Char) : Bool :=
  c = ' ' || c = '\t' || c = '\n' || c = '\x0b' || c = '\x0c' || c = '\r'

def isDigit (c : Char) : Bool := 48 ≤ c.toNat && c.toNat ≤ 57

def digitValue (c : Char) : ℕ := c.toNat - 48

/-- The accumulation of `strtol`, one digit after the other. -/
def decimalValue (digits : Text) : ℕ :=
  digits.foldl (fun n c => 10 * n + digitValue c) 0

def scanSign : Text → Bool × Text
  | '-' :: t => (true, t)
  | '+' :: t => (false, t)
  | t => (false, t)

/-- Sign and magnitude of the number at the start of a text, if there is one. -/
def scanInteger (t : Text) : Option (Bool × ℕ) :=
  let s := scanSign (t.dropWhile isSpace)
  let digits := s.2.takeWhile isDigit
  if digits = [] then none else some (s.1, decimalValue digits)

inductive NumberError where
  | invalidArgument
  | outOfRange
deriving Repr, DecidableEq

def intMin : ℤ := -2147483648
def intMax : ℤ := 2147483647

def InInt (n : ℤ) : Prop := intMin ≤ n ∧ n ≤ intMax

instance (n : ℤ) : Decidable (InInt n) := inferInstanceAs (Decidable (_ ∧ _))

def signed (negative : Bool) (n : ℕ) : ℤ := if negative then -(n : ℤ) else n

def stoi (t : Text) : Except NumberError ℤ :=
  match scanInteger t with
  | none => .error .invalidArgument
  | some (negative, n) =>
      if InInt (signed negative n) then .ok (signed negative n) else .error .outOfRange

/-- `std::stoul` in base ten: a minus sign negates modulo `2 ^ 32`. -/
def stoul (t : Text) : Except NumberError UInt32 :=
  match scanInteger t with
  | none => .error .invalidArgument
  | some (negative, n) =>
      if n < 2 ^ 32 then .ok (if negative then -(UInt32.ofNat n) else UInt32.ofNat n)
      else .error .outOfRange

def toText (n : ℤ) : Text := (toString n).toList

theorem decimalValue_eq_ofDigits (digits : Text) :
    decimalValue digits = Nat.ofDigits 10 (digits.reverse.map digitValue) := by
  induction digits using List.reverseRecOn with
  | nil => rfl
  | append_singleton ds d ih =>
      rw [decimalValue, List.foldl_append]
      change 10 * decimalValue ds + digitValue d = _
      rw [ih]
      simp only [List.reverse_append, List.reverse_singleton, List.singleton_append,
        List.map_cons, Nat.ofDigits_cons]
      ring

def IsSign : Bool → Text → Prop
  | true, sign => sign = ['-']
  | false, sign => sign = [] ∨ sign = ['+']

/-- An optionally signed decimal integer, white space around it allowed. Its value is
the positional value of the digits. -/
def IsIntegerLiteral (t : Text) (n : ℤ) : Prop :=
  ∃ (lead sign digits trail : Text) (negative : Bool),
    t = lead ++ (sign ++ (digits ++ trail)) ∧ IsSign negative sign ∧
    (∀ c ∈ lead, isSpace c = true) ∧ (∀ c ∈ trail, isSpace c = true) ∧
    digits ≠ [] ∧ (∀ c ∈ digits, isDigit c = true) ∧
    n = signed negative (Nat.ofDigits 10 (digits.reverse.map digitValue))

theorem isSpace_of_isDigit {c : Char} (h : isDigit c = true) : isSpace c = false := by
  simp only [isDigit, Bool.and_eq_true, decide_eq_true_eq] at h
  have hne : ∀ d : Char, d.toNat < 48 → c ≠ d := by
    intro d hd hcd
    rw [hcd] at h
    omega
  simp [isSpace, hne]

theorem isDigit_of_isSpace {c : Char} (h : isSpace c = true) : isDigit c = false := by
  by_contra hd
  rw [isSpace_of_isDigit (by simpa using hd)] at h
  exact Bool.false_ne_true h

/-- The digits end where another character follows. -/
theorem takeWhile_digits {digits rest : Text} (hd : ∀ c ∈ digits, isDigit c = true)
    (hrest : ∀ c ∈ rest.head?, isDigit c = false) :
    (digits ++ rest).takeWhile isDigit = digits := by
  rw [List.takeWhile_append_of_pos hd]
  cases rest with
  | nil => simp
  | cons c rest =>
      have hc := hrest c rfl
      rw [List.takeWhile_cons_of_neg (by simp [hc]), List.append_nil]

/-- A digit is no sign, so digits after the white space are left to the digit scan. -/
theorem scanSign_digits {digits trail : Text} (hne : digits ≠ [])
    (hd : ∀ c ∈ digits, isDigit c = true) :
    scanSign (digits ++ trail) = (false, digits ++ trail) := by
  obtain ⟨c, ds, rfl⟩ := List.exists_cons_of_ne_nil hne
  have hc := hd c (by simp)
  have hminus : c ≠ '-' := by
    intro h
    simp [h, isDigit] at hc
  have hplus : c ≠ '+' := by
    intro h
    simp [h, isDigit] at hc
  rw [List.cons_append]
  unfold scanSign
  split
  · simp_all
  · simp_all
  · rfl

/-- White space ends in front of the sign, or of the digits where no sign is written. -/
theorem dropWhile_signed {sign digits trail : Text} {negative : Bool}
    (hsign : IsSign negative sign) (hne : digits ≠ []) (hd : ∀ c ∈ digits, isDigit c = true) :
    (sign ++ (digits ++ trail)).dropWhile isSpace = sign ++ (digits ++ trail) := by
  have hstart : (digits ++ trail).dropWhile isSpace = digits ++ trail := by
    obtain ⟨c, ds, rfl⟩ := List.exists_cons_of_ne_nil hne
    exact List.dropWhile_cons_of_neg (by simp [isSpace_of_isDigit (hd c (by simp))])
  cases negative with
  | true =>
      rw [show sign = ['-'] from hsign]
      exact List.dropWhile_cons_of_neg (by decide)
  | false =>
      rcases hsign with rfl | rfl
      · exact hstart
      · exact List.dropWhile_cons_of_neg (by decide)

theorem scanSign_signed {sign digits trail : Text} {negative : Bool}
    (hsign : IsSign negative sign) (hne : digits ≠ []) (hd : ∀ c ∈ digits, isDigit c = true) :
    scanSign (sign ++ (digits ++ trail)) = (negative, digits ++ trail) := by
  cases negative with
  | true => rw [show sign = ['-'] from hsign]; rfl
  | false =>
      rcases hsign with rfl | rfl
      · rw [List.nil_append]
        exact scanSign_digits hne hd
      · rfl

/-- The text starts with white space, an optional sign and digits, and `n` is their value. What
follows the digits is left open. -/
def StartsWithInteger (t : Text) (n : ℤ) : Prop :=
  ∃ (lead sign digits rest : Text) (negative : Bool),
    t = lead ++ (sign ++ (digits ++ rest)) ∧ IsSign negative sign ∧
    (∀ c ∈ lead, isSpace c = true) ∧ (∀ c ∈ rest.head?, isDigit c = false) ∧
    digits ≠ [] ∧ (∀ c ∈ digits, isDigit c = true) ∧
    n = signed negative (Nat.ofDigits 10 (digits.reverse.map digitValue))

theorem IsIntegerLiteral.startsWith {t : Text} {n : ℤ} (h : IsIntegerLiteral t n) :
    StartsWithInteger t n := by
  have ⟨lead, sign, digits, trail, negative, ht, hsign, hlead, htrail, hne, hd, hn⟩ := h
  refine ⟨lead, sign, digits, trail, negative, ht, hsign, hlead, ?_, hne, hd, hn⟩
  intro c hc
  exact isDigit_of_isSpace (htrail c (List.mem_of_mem_head? hc))

theorem scanSign_spec (t : Text) :
    ∃ sign, IsSign (scanSign t).1 sign ∧ t = sign ++ (scanSign t).2 := by
  unfold scanSign
  split
  · exact ⟨['-'], rfl, rfl⟩
  · exact ⟨['+'], Or.inr rfl, rfl⟩
  · exact ⟨[], Or.inl rfl, rfl⟩

theorem head?_dropWhile_isDigit (t : Text) :
    ∀ c ∈ (t.dropWhile isDigit).head?, isDigit c = false := by
  intro c hc
  have h := List.head?_dropWhile_not isDigit t
  rw [Option.mem_def.mp hc] at h
  simpa using h

/-- The scanner finds exactly the integer the text starts with. -/
theorem startsWithInteger_iff {t : Text} {n : ℤ} :
    StartsWithInteger t n ↔
      ∃ negative m, scanInteger t = some (negative, m) ∧ n = signed negative m := by
  constructor
  · intro h
    obtain ⟨lead, sign, digits, rest, negative, rfl, hsign, hlead, hrest, hne, hd, rfl⟩ := h
    refine ⟨negative, decimalValue digits, ?_, by rw [decimalValue_eq_ofDigits]⟩
    rw [scanInteger, List.dropWhile_append_of_pos hlead, dropWhile_signed hsign hne hd,
      scanSign_signed hsign hne hd, takeWhile_digits hd hrest]
    simp [hne]
  · intro h
    have ⟨negative, m, hscan, hn⟩ := h
    have ⟨sign, hsign, heq⟩ := scanSign_spec (t.dropWhile isSpace)
    unfold scanInteger at hscan
    dsimp only at hscan
    split at hscan
    · cases hscan
    · rename_i hne
      rw [Option.some_inj, Prod.mk.injEq] at hscan
      have ⟨hnegative, hm⟩ := hscan
      rw [hnegative] at hsign
      refine ⟨t.takeWhile isSpace, sign, _, _, negative, ?_, hsign, ?_,
        head?_dropWhile_isDigit (scanSign (t.dropWhile isSpace)).2, hne, ?_, ?_⟩
      · rw [List.takeWhile_append_dropWhile, ← heq, List.takeWhile_append_dropWhile]
      · exact fun c hc => List.mem_takeWhile_imp hc
      · exact fun c hc => List.mem_takeWhile_imp hc
      · rw [hn, ← hm, decimalValue_eq_ofDigits]

theorem scanInteger_literal {t : Text} {n : ℤ} (h : IsIntegerLiteral t n) :
    ∃ negative m, scanInteger t = some (negative, m) ∧ n = signed negative m :=
  startsWithInteger_iff.mp h.startsWith

/-- `std::stoi` reads the integer a text starts with, if it is in the range of `int`. -/
theorem stoi_eq_ok_iff {t : Text} {n : ℤ} : stoi t = .ok n ↔ StartsWithInteger t n ∧ InInt n := by
  rw [startsWithInteger_iff, stoi]
  cases hscan : scanInteger t with
  | none => simp
  | some r =>
      cases r with
      | mk negative m =>
          by_cases hin : InInt (signed negative m)
          · simp only [hin, if_true, Except.ok.injEq, Option.some.injEq, Prod.mk.injEq]
            constructor
            · intro h
              rw [← h]
              exact ⟨⟨negative, m, ⟨rfl, rfl⟩, rfl⟩, hin⟩
            · intro h
              obtain ⟨⟨negative', m', ⟨rfl, rfl⟩, hn⟩, _⟩ := h
              exact hn.symm
          · simp only [hin, if_false, Option.some.injEq, Prod.mk.injEq, reduceCtorEq, false_iff]
            intro h
            obtain ⟨⟨negative', m', ⟨rfl, rfl⟩, rfl⟩, hin'⟩ := h
            exact hin hin'

theorem stoi_literal {t : Text} {n : ℤ} (h : IsIntegerLiteral t n) (hn : InInt n) :
    stoi t = .ok n := by
  obtain ⟨negative, m, hscan, rfl⟩ := scanInteger_literal h
  simp [stoi, hscan, hn]

theorem stoul_literal {t : Text} {n : ℕ} (h : IsIntegerLiteral t n) (hn : n < 2 ^ 32) :
    stoul t = .ok (UInt32.ofNat n) := by
  have ⟨negative, m, hscan, hm⟩ := scanInteger_literal h
  rw [stoul, hscan]
  cases negative with
  | false =>
      obtain rfl : n = m := by simpa [signed] using hm
      exact if_pos hn
  | true =>
      -- a minus sign in front of a number that is not negative leaves zero only
      obtain ⟨rfl, rfl⟩ : n = 0 ∧ m = 0 := by
        simp only [signed, if_true] at hm
        omega
      rfl

theorem stoul_literal_outOfRange {t : Text} {n : ℕ} (h : IsIntegerLiteral t n) (hn : 2 ^ 32 ≤ n) :
    stoul t = .error .outOfRange := by
  have ⟨negative, m, hscan, hm⟩ := scanInteger_literal h
  have hlarge : ¬ m < 2 ^ 32 := by
    cases negative with
    | false =>
        obtain rfl : n = m := by simpa [signed] using hm
        omega
    | true =>
        simp only [signed, if_true] at hm
        omega
  rw [stoul, hscan]
  exact if_neg hlarge

theorem IsIntegerLiteral.ne_nil {t : Text} {n : ℤ} (h : IsIntegerLiteral t n) : t ≠ [] := by
  obtain ⟨lead, sign, digits, trail, negative, rfl, -, -, -, hne, -, -⟩ := h
  simp [hne]

theorem IsIntegerLiteral.notMem {t : Text} {n : ℤ} (h : IsIntegerLiteral t n) {c : Char}
    (hspace : isSpace c = false) (hdigit : isDigit c = false) (hminus : c ≠ '-') (hplus : c ≠ '+') :
    c ∉ t := by
  obtain ⟨lead, sign, digits, trail, negative, rfl, hsign, hlead, htrail, -, hd, -⟩ := h
  have hnot : c ∉ sign := by
    cases negative with
    | true => simp [show sign = ['-'] from hsign, hminus]
    | false => cases hsign with
      | inl h => simp [h]
      | inr h => simp [h, hplus]
  have hleads : c ∉ lead := fun hc => by simp [hlead c hc] at hspace
  have htrails : c ∉ trail := fun hc => by simp [htrail c hc] at hspace
  have hdigits : c ∉ digits := fun hc => by simp [hd c hc] at hdigit
  simp [hleads, hnot, hdigits, htrails]

/-! ### Writing integers -/

theorem toText_natCast (n : ℕ) : toText n = Nat.toDigits 10 n := by
  simp [toText, Int.toString_eq_repr, Int.repr_eq_if]

theorem toText_negSucc (n : ℕ) : toText (Int.negSucc n) = '-' :: Nat.toDigits 10 (n + 1) := by
  simp [toText, Int.toString_eq_repr, Int.repr_eq_if]

theorem toText_natCast_ne_negSucc (m n : ℕ) : toText m ≠ toText (Int.negSucc n) := by
  intro h
  have hminus : '-' ∈ Nat.toDigits 10 m := by
    rw [← toText_natCast, h, toText_negSucc]
    exact List.mem_cons_self
  have hdigit := Nat.isDigit_of_mem_toDigits (by decide) (by decide) hminus
  exact absurd hdigit (by decide)

theorem toDigits_injective : Function.Injective (Nat.toDigits 10) :=
  Function.LeftInverse.injective fun _ => Nat.ofDigitChars_ten_toDigits

theorem toText_injective : Function.Injective toText := by
  intro m n h
  cases m with
  | ofNat m =>
      cases n with
      | ofNat n =>
          have hdigits := (toText_natCast m).symm.trans (h.trans (toText_natCast n))
          rw [toDigits_injective hdigits]
      | negSucc n => exact (toText_natCast_ne_negSucc m n h).elim
  | negSucc m =>
      cases n with
      | ofNat n => exact (toText_natCast_ne_negSucc n m h.symm).elim
      | negSucc n =>
          rw [toText_negSucc, toText_negSucc, List.cons.injEq] at h
          have hsucc := toDigits_injective h.2
          rw [Nat.succ_injective hsucc]

/-- `std::stoi` throws on a text of white space. -/
theorem stoi_space {t : Text} (h : ∀ c ∈ t, isSpace c = true) :
    stoi t = .error .invalidArgument := by
  have hdrop : t.dropWhile isSpace = [] := List.dropWhile_eq_nil_iff.mpr h
  simp [stoi, scanInteger, hdrop, scanSign]

end ForexSuite.TextNumbers
