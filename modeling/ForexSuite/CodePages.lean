import Mathlib.Data.List.TakeWhile
import Mathlib.Data.Nat.Notation

/-!
# Byte strings, code pages and UTF-8

A single-byte code page gives every byte a character and agrees with ASCII below
128. Widening a byte string decodes it byte by byte up to the first NUL, which
ends a C string; narrowing encodes a text in UTF-8. Narrowing undoes widening on
ASCII, and nowhere else.
-/
namespace ForexSuite.CodePages

structure CodePage where
  decode : UInt8 → Char
  ascii : ∀ b, b < 128 → decode b = Char.ofNat b.toNat
  nonzero : ∀ b, b ≠ 0 → decode b ≠ '\x00'

/-- The characters of a wide C string end in front of the first NUL. -/
def cString (t : List Char) : List Char := t.takeWhile (· ≠ '\x00')

def CodePage.widen (page : CodePage) (b : List UInt8) : List Char := cString (b.map page.decode)

def narrow (t : List Char) : List UInt8 := t.flatMap String.utf8EncodeChar

/-- A byte of a C string in ASCII. -/
def IsAscii (b : UInt8) : Prop := 0 < b ∧ b < 128

instance (b : UInt8) : Decidable (IsAscii b) := inferInstanceAs (Decidable (_ ∧ _))

theorem zero_notMem_utf8EncodeChar {c : Char} (h : c ≠ '\x00') : 0 ∉ String.utf8EncodeChar c := by
  have hval : c.val.toNat ≠ 0 := by
    intro h0
    exact h (Char.ext (UInt32.toNat_inj.mp h0))
  have hbyte (n : ℕ) (h0 : n % 256 ≠ 0) : (0 : UInt8) ≠ UInt8.ofNat n := by
    intro heq
    have hnat := congrArg UInt8.toNat heq
    simp at hnat
    omega
  unfold String.utf8EncodeChar
  dsimp only
  split
  · rw [List.mem_singleton]
    exact hbyte _ (by omega)
  · split
    · simp only [List.mem_cons, List.not_mem_nil, or_false, not_or]
      exact ⟨hbyte _ (by omega), hbyte _ (by omega)⟩
    · split
      · simp only [List.mem_cons, List.not_mem_nil, or_false, not_or]
        exact ⟨hbyte _ (by omega), hbyte _ (by omega), hbyte _ (by omega)⟩
      · simp only [List.mem_cons, List.not_mem_nil, or_false, not_or]
        exact ⟨hbyte _ (by omega), hbyte _ (by omega), hbyte _ (by omega), hbyte _ (by omega)⟩

theorem zero_notMem_narrow {t : List Char} (h : '\x00' ∉ t) : 0 ∉ narrow t := by
  intro h0
  have ⟨c, hc, hzero⟩ := List.mem_flatMap.mp h0
  exact zero_notMem_utf8EncodeChar (fun heq => h (heq ▸ hc)) hzero

theorem zero_notMem_cString (t : List Char) : '\x00' ∉ cString t := by
  intro h
  have hne := List.mem_takeWhile_imp h
  simp at hne

variable {page : CodePage} {b : List UInt8}

theorem widen_of_nonzero (h : (0 : UInt8) ∉ b) : page.widen b = b.map page.decode := by
  rw [CodePage.widen, cString, List.takeWhile_eq_self_iff]
  intro c hc
  have ⟨x, hx, hxc⟩ := List.mem_map.mp hc
  have hx0 : x ≠ 0 := fun h0 => h (h0 ▸ hx)
  simpa [← hxc] using page.nonzero x hx0

theorem utf8EncodeChar_decode {x : UInt8} (h : x < 128) :
    String.utf8EncodeChar (page.decode x) = [x] := by
  have hx : x.toNat < 128 := h
  have hval : (Char.ofNat x.toNat).val.toNat = x.toNat := by
    rw [Char.ofNat, dif_pos (Or.inl (by omega))]
    exact UInt32.toNat_ofNatLT ..
  rw [page.ascii x h, String.utf8EncodeChar, hval, if_pos (by omega), UInt8.ofNat_toNat]

/-- A byte that is a character's whole encoding is an ASCII byte. -/
theorem lt_of_utf8EncodeChar {c : Char} {x : UInt8} (h : String.utf8EncodeChar c = [x]) :
    x < 128 := by
  have hsize : c.utf8Size = 1 := by rw [← String.length_utf8EncodeChar, h]; rfl
  have hval : c.val.toNat ≤ 127 := Char.utf8Size_eq_one_iff.mp hsize
  rw [String.utf8EncodeChar, if_pos hval, List.cons.injEq] at h
  rw [← h.1, UInt8.lt_iff_toNat_lt, UInt8.toNat_ofNat']
  change c.val.toNat % 256 < 128
  omega

theorem length_le_length_narrow (t : List Char) : t.length ≤ (narrow t).length := by
  induction t with
  | nil => rfl
  | cons c t ih =>
      have hpos := c.utf8Size_pos
      simp only [narrow, List.flatMap_cons, List.length_append, String.length_utf8EncodeChar,
        List.length_cons] at ih ⊢
      omega

/-- Every character takes at least one byte, so none can take more. -/
theorem lt_of_narrow_map_decode (h : narrow (b.map page.decode) = b) : ∀ x ∈ b, x < 128 := by
  induction b with
  | nil => simp
  | cons x b ih =>
      have hrest := length_le_length_narrow (b.map page.decode)
      rw [List.map_cons, narrow, List.flatMap_cons, ← narrow] at h
      have hlen := congrArg List.length h
      have hone : (String.utf8EncodeChar (page.decode x)).length = 1 := by
        have hpos := (page.decode x).utf8Size_pos
        simp only [List.length_append, String.length_utf8EncodeChar, List.length_cons,
          List.length_map] at hlen hrest ⊢
        omega
      have ⟨y, hy⟩ := List.length_eq_one_iff.mp hone
      rw [hy, List.singleton_append, List.cons.injEq] at h
      intro z hz
      cases List.mem_cons.mp hz with
      | inl heq =>
          rw [heq, ← h.1]
          exact lt_of_utf8EncodeChar hy
      | inr hz => exact ih h.2 z hz

theorem narrow_map_decode (h : ∀ x ∈ b, x < 128) : narrow (b.map page.decode) = b := by
  induction b with
  | nil => rfl
  | cons x b ih =>
      rw [List.map_cons, narrow, List.flatMap_cons, ← narrow, utf8EncodeChar_decode (h x (by simp)),
        ih fun y hy => h y (by simp [hy]), List.singleton_append]

/-- Narrowing undoes widening exactly on the byte strings of ASCII characters. -/
theorem narrow_widen_iff (page : CodePage) (b : List UInt8) :
    narrow (page.widen b) = b ↔ ∀ x ∈ b, IsAscii x := by
  constructor
  · intro h
    have h0 : (0 : UInt8) ∉ b := by
      rw [← h]
      exact zero_notMem_narrow (zero_notMem_cString _)
    rw [widen_of_nonzero h0] at h
    intro x hx
    have hpos : x ≠ 0 := fun hx0 => h0 (hx0 ▸ hx)
    exact ⟨UInt8.pos_iff_ne_zero.mpr hpos, lt_of_narrow_map_decode h x hx⟩
  · intro h
    have h0 : (0 : UInt8) ∉ b := by
      intro hmem
      exact absurd (h 0 hmem).1 (by decide)
    rw [widen_of_nonzero h0]
    exact narrow_map_decode fun x hx => (h x hx).2

/-! ### Windows-1252 -/

/-- The code points of the bytes from 128 to 159; the other bytes are their own code points. -/
def windows1252High : List ℕ :=
  [0x20ac, 0x81, 0x201a, 0x192, 0x201e, 0x2026, 0x2020, 0x2021,
    0x2c6, 0x2030, 0x160, 0x2039, 0x152, 0x8d, 0x17d, 0x8f,
    0x90, 0x2018, 0x2019, 0x201c, 0x201d, 0x2022, 0x2013, 0x2014,
    0x2dc, 0x2122, 0x161, 0x203a, 0x153, 0x9d, 0x17e, 0x178]

def windows1252Code (b : UInt8) : ℕ :=
  if b < 128 then b.toNat else windows1252High[b.toNat - 128]?.getD b.toNat

theorem windows1252Code_range {b : UInt8} (h : b ≠ 0) :
    0 < windows1252Code b ∧ windows1252Code b < 0xd800 := by
  have hpos : b.toNat ≠ 0 := fun h0 => h (UInt8.toNat_inj.mp h0)
  have hlt := b.toNat_lt
  have hself : 0 < b.toNat ∧ b.toNat < 0xd800 := by omega
  unfold windows1252Code
  split
  · exact hself
  · cases hhigh : windows1252High[b.toNat - 128]? with
    | none => exact hself
    | some n =>
        have hall : ∀ n ∈ windows1252High, 0 < n ∧ n < 0xd800 := by decide
        exact hall n (List.mem_of_getElem? hhigh)

def windows1252 : CodePage where
  decode b := Char.ofNat (windows1252Code b)
  ascii b h := by rw [windows1252Code, if_pos h]
  nonzero b h := by
    have ⟨hpos, hlt⟩ := windows1252Code_range h
    intro heq
    have hval : (Char.ofNat (windows1252Code b)).val.toNat = windows1252Code b := by
      rw [Char.ofNat, dif_pos (Or.inl hlt)]
      exact UInt32.toNat_ofNatLT ..
    rw [heq] at hval
    exact absurd hval.symm hpos.ne'

end ForexSuite.CodePages
