import ForexSuite.TextNumbers
import Mathlib.Data.List.DropRight

/-!
# Group masks of the trading platform

`CMTStr::CheckGroupMask` walks over a comma-separated list of templates and
`CMTStr::CheckGroupTemplate` matches one of them, with `*` for any run of
characters and a leading `!` for exclusion. A C string is the list of its
characters, a pointer into it the suffix that starts there. Both loops consume
at least one character in each round, so the length of the text they walk over
is enough fuel (`templateLoop_fuel`, `maskLoop_fuel`).
-/
namespace ForexSuite.GroupMask

open TextNumbers

/-- Skip asterisks. The first component is the suffix at the last one skipped. -/
def skipStars (maskAst : Text) : Text → Text × Text
  | '*' :: mask => skipStars ('*' :: mask) mask
  | mask => (maskAst, mask)

/-- The word loop: template and group advance together up to the next asterisk or the
end of either. After a mismatch the template restarts at its last asterisk, and
`none` stands for `return(false)` when it has none. -/
def matchWord (ast : Bool) (maskAst : Text) : Text → Text → Option (Text × Text)
  | m :: mask, g :: group =>
      if m = '*' then some (m :: mask, g :: group)
      else if g = m then matchWord ast maskAst mask group
      else if ast then some (maskAst, g :: group) else none
  | mask, group => some (mask, group)

/-- The group loop of `CheckGroupTemplate`. -/
def templateLoop : ℕ → Bool → Text → Text → Text → Bool
  | fuel + 1, ast, maskAst, m :: mask, g :: group =>
      if g = m then
        match matchWord ast maskAst (m :: mask) (g :: group) with
        | none => false
        | some ([], []) => true
        | some ([], g :: group) =>
            if ast then
              let s := skipStars maskAst maskAst
              if s.2 = [] then true else templateLoop fuel true s.1 s.2 (g :: group)
            else false
        | some (mask, []) => (skipStars maskAst mask).2 = []
        | some (mask, g :: group) =>
            let s := skipStars maskAst mask
            if s.2 = [] then true else templateLoop fuel true s.1 s.2 (g :: group)
      else if ast then templateLoop fuel ast maskAst (m :: mask) group else false
  | _, _, _, mask, _ => mask = []

def checkGroupTemplate (expr group : Text) : Bool :=
  let mask := expr.dropWhile (· = '!')
  let s := skipStars [] mask
  templateLoop group.length (mask.head? = some '*') s.1 s.2 group

def isSeparator (c : Char) : Bool := c = ' ' || c = ','

def readTemplate (t : Text) : Text := (t.takeWhile (· ≠ ',')).take 255

/-- The token loop of `CheckGroupMask`; an excluding template that matches ends it. -/
def maskLoop (group : Text) : ℕ → Bool → Text → Bool
  | fuel + 1, found, c :: t =>
      if isSeparator c then maskLoop group fuel found t
      else
        let token := readTemplate (c :: t)
        let mask := token.rdropWhile isSeparator
        if mask.head? = some '!' && checkGroupTemplate mask group then false
        else maskLoop group fuel (found || checkGroupTemplate mask group)
          ((c :: t).drop (token.length + 1))
  | _, found, _ => found

def checkGroupMask (groupsmask group : Text) : Bool :=
  maskLoop group groupsmask.length false groupsmask

theorem matchWord_length {ast : Bool} {maskAst mask group mask' group' : Text}
    (h : matchWord ast maskAst mask group = some (mask', group')) :
    group'.length ≤ group.length := by
  fun_induction matchWord ast maskAst mask group with
  | case1 => simp_all
  | case2 mask group m _ ih =>
      have := ih h
      simp only [List.length_cons]
      omega
  | case3 => simp_all
  | case4 => simp_all
  | case5 => simp_all

/-- The word loop is entered on equal characters and so consumes one of them. -/
theorem matchWord_consumes {ast : Bool} {maskAst mask group mask' group' : Text} {c : Char}
    (hc : c ≠ '*')
    (h : matchWord ast maskAst (c :: mask) (c :: group) = some (mask', group')) :
    group'.length ≤ group.length := by
  rw [matchWord, if_neg hc, if_pos rfl] at h
  exact matchWord_length h

theorem skipStars_head (maskAst mask : Text) : (skipStars maskAst mask).2.head? ≠ some '*' := by
  fun_induction skipStars maskAst mask with
  | case1 maskAst mask ih => exact ih
  | case2 maskAst mask hmask =>
      cases mask with
      | nil => simp
      | cons c mask =>
          intro h
          obtain rfl : c = '*' := by simpa using h
          exact hmask mask rfl

/-- The group loop never runs out of fuel: its template starts with no asterisk, so each
round consumes a character of the group. -/
theorem templateLoop_fuel {n m : ℕ} {ast : Bool} {maskAst mask group : Text}
    (hmask : mask.head? ≠ some '*') (hn : group.length ≤ n) (hm : group.length ≤ m) :
    templateLoop n ast maskAst mask group = templateLoop m ast maskAst mask group := by
  induction n generalizing m ast maskAst mask group with
  | zero =>
      obtain rfl : group = [] := List.eq_nil_of_length_eq_zero (Nat.le_zero.mp hn)
      cases m <;> cases mask <;> simp [templateLoop]
  | succ n ih =>
      cases group with
      | nil => cases m <;> cases mask <;> simp [templateLoop]
      | cons g group =>
          cases mask with
          | nil => cases m <;> simp [templateLoop]
          | cons c mask =>
              cases m with
              | zero => simp at hm
              | succ m =>
                  simp only [List.length_cons, Nat.add_le_add_iff_right] at hn hm
                  simp only [templateLoop]
                  by_cases hg : g = c
                  · subst hg
                    have hstar : g ≠ '*' := by simpa using hmask
                    simp only [if_true]
                    cases hw : matchWord ast maskAst (g :: mask) (g :: group) with
                    | none => rfl
                    | some w =>
                        obtain ⟨mask', group'⟩ := w
                        have hlen := matchWord_consumes hstar hw
                        cases group' with
                        | nil => cases mask' <;> rfl
                        | cons g' group' =>
                            -- wherever the loop goes on, it is behind skipped asterisks
                            have h (ma a b : Text) :
                                templateLoop n true ma (skipStars a b).2 (g' :: group') =
                                  templateLoop m true ma (skipStars a b).2 (g' :: group') :=
                              ih (skipStars_head a b) (hlen.trans hn) (hlen.trans hm)
                            cases mask' with
                            | nil => simp only [h]
                            | cons c' mask' => simp only [h]
                  · simp only [hg, if_false]
                    rw [ih hmask hn hm]

theorem maskLoop_fuel {group : Text} {n m : ℕ} {found : Bool} {t : Text}
    (hn : t.length ≤ n) (hm : t.length ≤ m) :
    maskLoop group n found t = maskLoop group m found t := by
  induction n generalizing m found t with
  | zero =>
      obtain rfl : t = [] := List.eq_nil_of_length_eq_zero (Nat.le_zero.mp hn)
      cases m <;> rfl
  | succ n ih =>
      cases t with
      | nil => cases m <;> rfl
      | cons c t =>
          cases m with
          | zero => simp at hm
          | succ m =>
              simp only [List.length_cons, Nat.add_le_add_iff_right] at hn hm
              have hdrop : ∀ k, ((c :: t).drop (k + 1)).length ≤ t.length := by simp
              simp only [maskLoop, ih hn hm, ih ((hdrop _).trans hn) ((hdrop _).trans hm)]

end ForexSuite.GroupMask
