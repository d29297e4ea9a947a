import ForexSuite.CopierDeals
import ForexSuite.CopierSoundness

/-!
# Account numbers of 64 bits

The platform numbers accounts with 64 bits. The plugin passes the number of a
deal's account as a `long`, which has 32 bits, and prints that; it reads the number
of a target with `std::stoul`, keeps it as a `long`, and passes that back. Numbers
below `2 ^ 31` survive on both paths, and no others do.
-/
namespace ForexSuite.CopierLogins

open TextNumbers CopierConfig CopierPlugin CopierLoading CopierRouting CopierDeals CopierSoundness

theorem loginText_eq_iff (login : UInt64) :
    loginText login = toText login.toNat ↔ login.toNat < 2 ^ 31 := by
  unfold loginText
  rw [toText_injective.eq_iff]
  constructor
  · intro h
    have hlt := Int32.toInt_lt (toLong login)
    omega
  · exact toLong_toInt

theorem toUINT64_eq_iff {t : Int32} {login : UInt64} (h : login.toNat < 2 ^ 63) :
    toUINT64 t = login ↔ t.toInt = login.toNat := by
  have hback : toUINT64 t = login ↔ t.toInt64 = login.toInt64 := by
    unfold toUINT64
    constructor
    · intro heq
      rw [← heq]
      simp
    · intro heq
      rw [heq]
      simp
  rw [hback, ← Int64.toInt_inj, Int32.toInt_toInt64, toInt64_toInt h]

/-- The number a target is kept under is the one that was written, if that fits into a `long`. -/
theorem readTarget_iff {text : Text} {target : UInt64} (h : IsIntegerLiteral text target.toNat) :
    (∃ t, readTarget text = .ok t ∧ toUINT64 t = target) ↔ target.toNat < 2 ^ 31 := by
  by_cases hlt : target.toNat < 2 ^ 32
  · have hread := readTarget_literal h hlt
    have hkept : (Int32.ofNat target.toNat).toInt = target.toNat ↔ target.toNat < 2 ^ 31 := by
      constructor
      · intro heq
        have hmax := Int32.toInt_lt (Int32.ofNat target.toNat)
        omega
      · exact Int32.toInt_ofNat_of_lt
    rw [← hkept, ← toUINT64_eq_iff (by omega), hread]
    simp
  · have hread : readTarget text = .error (.stoul .outOfRange) := by
      rw [readTarget, stoul_literal_outOfRange h (by omega)]
    simp only [hread, reduceCtorEq, false_and, exists_false, false_iff]
    omega

/-- For every two account numbers of deals, every target number and every way to write it: the
login masks are matched with the decimal texts of the accounts, which are different for different
accounts, and the target is kept as it was written, if and only if all three numbers are below
`2 ^ 31`. -/
theorem logins_are_kept_iff (login login' target : UInt64) (text : Text)
    (h : IsIntegerLiteral text target.toNat) :
    (loginText login = toText login.toNat ∧ loginText login' = toText login'.toNat ∧
        (login ≠ login' → loginText login ≠ loginText login') ∧
        ∃ t, readTarget text = .ok t ∧ toUINT64 t = target) ↔
      login.toNat < 2 ^ 31 ∧ login'.toNat < 2 ^ 31 ∧ target.toNat < 2 ^ 31 := by
  rw [readTarget_iff h]
  constructor
  · intro hkept
    have ⟨hlogin, hlogin', _, htarget⟩ := hkept
    exact ⟨(loginText_eq_iff login).mp hlogin, (loginText_eq_iff login').mp hlogin', htarget⟩
  · intro hsmall
    have ⟨hlogin, hlogin', htarget⟩ := hsmall
    have htext := (loginText_eq_iff login).mpr hlogin
    have htext' := (loginText_eq_iff login').mpr hlogin'
    refine ⟨htext, htext', ?_, htarget⟩
    intro hne heq
    rw [htext, htext', toText_injective.eq_iff] at heq
    exact hne (UInt64.toNat.inj (by exact_mod_cast heq))

theorem logins_are_kept_iff_small :
    ∃ t, readTarget "200".toList = .ok t ∧ toUINT64 t = 200 := by
  have hliteral : IsIntegerLiteral "200".toList (200 : UInt64).toNat :=
    ⟨[], [], "200".toList, [], false, rfl, Or.inl rfl, by simp, by simp, by decide,
      List.all_eq_true.mp rfl, by decide⟩
  exact ((logins_are_kept_iff 100 101 200 "200".toList hliteral).mpr
    ⟨by decide, by decide, by decide⟩).2.2.2

/-- Account `2 ^ 32 + 100` is taken for account 100, and the target `2 ^ 31` is kept as a number
close to `2 ^ 64`. -/
theorem large_logins_are_changed :
    loginText 4294967396 = loginText 100 ∧
      (readTarget "2147483648".toList).toOption.map toUINT64 = some 18446744071562067968 := by
  decide

end ForexSuite.CopierLogins
