import Mathlib.Data.List.Induction

/-!
# Computations that may throw

A C++ function that can be left by an exception returns in `Except`. These are
the rules by which such a computation is taken apart: how a sequence continues
after a result or an exception, and what holds of the one or the other when it ends.
-/
namespace ForexSuite.Exceptions

universe u

variable {ε : Type*} {α β : Type u}

@[simp] theorem ok_bind (a : α) (f : α → Except ε β) : (Except.ok a >>= f) = f a := rfl

@[simp] theorem error_bind (e : ε) (f : α → Except ε β) :
    ((Except.error e : Except ε α) >>= f) = .error e := rfl

@[simp] theorem pure_eq_ok (a : α) : (pure a : Except ε α) = .ok a := rfl

theorem bind_eq_ok_iff {x : Except ε α} {f : α → Except ε β} {b : β} :
    (x >>= f) = .ok b ↔ ∃ a, x = .ok a ∧ f a = .ok b := by
  cases x <;> simp

/-- An exception that is wrapped is still an exception. -/
theorem mapError_eq_ok_iff {ε' : Type*} {x : Except ε α} {f : ε → ε'} {a : α} :
    x.mapError f = .ok a ↔ x = .ok a := by
  cases x <;> simp [Except.mapError]

/-- The computation returns a result of which `R` holds, or throws an exception of which `E`
does. -/
def Ends (E : ε → Prop) (R : α → Prop) : Except ε α → Prop
  | .ok a => R a
  | .error e => E e

section

variable {E E' : ε → Prop} {R R' : α → Prop} {S : β → Prop} {x : Except ε α}
  {f : α → Except ε β}

theorem Ends.bind (h : Ends E R x) (hf : ∀ a, R a → Ends E S (f a)) : Ends E S (x >>= f) := by
  cases x with
  | ok a => exact hf a h
  | error e => exact h

theorem Ends.mono (h : Ends E R x) (hE : ∀ e, E e → E' e) (hR : ∀ a, R a → R' a) :
    Ends E' R' x := by
  cases x with
  | ok a => exact hR a h
  | error e => exact hE e h

/-- What is known when it has ended. -/
theorem Ends.ok_or_error (h : Ends E R x) :
    (∃ a, x = .ok a ∧ R a) ∨ ∃ e, x = .error e ∧ E e := by
  cases x with
  | ok a => exact Or.inl ⟨a, rfl, h⟩
  | error e => exact Or.inr ⟨e, rfl, h⟩

end

/-- A fold that may throw, whose state is determined by what it has read: it returns exactly if
every step is a good one, and then the state of everything read. -/
theorem foldlM_eq_ok_iff {γ : Type*} {f : α → γ → Except ε α} (after : List γ → α)
    (Good : List γ → γ → Prop)
    (hgood : ∀ before c, Good before c → f (after before) c = .ok (after (before ++ [c])))
    (hbad : ∀ before c, ¬ Good before c → ∃ e, f (after before) c = .error e)
    (cs : List γ) (a : α) :
    cs.foldlM f (after []) = .ok a ↔
      (∀ before c rest, cs = before ++ c :: rest → Good before c) ∧ a = after cs := by
  induction cs using List.reverseRecOn generalizing a with
  | nil => simp [eq_comm]
  | append_singleton cs c ih =>
      rw [List.foldlM_append, bind_eq_ok_iff]
      simp only [ih, List.foldlM_cons, List.foldlM_nil, bind_eq_ok_iff, pure_eq_ok]
      constructor
      · rintro ⟨b, ⟨hall, rfl⟩, d, hstep, hd⟩
        have hc : Good cs c := by
          by_contra hc
          obtain ⟨e, he⟩ := hbad cs c hc
          rw [he] at hstep
          cases hstep
        rw [hgood cs c hc] at hstep
        cases hstep
        cases hd
        refine ⟨?_, rfl⟩
        intro before x rest h
        -- the last step, or one of those before it
        rcases List.eq_nil_or_concat rest with rfl | ⟨rest, y, rfl⟩
        · obtain ⟨rfl, hx⟩ := List.append_inj' h rfl
          cases hx
          exact hc
        · rw [List.concat_eq_append, ← List.cons_append, ← List.append_assoc] at h
          exact hall before x rest (List.append_inj' h rfl).1
      · rintro ⟨hall, rfl⟩
        refine ⟨after cs, ⟨?_, rfl⟩, _, hgood cs c (hall cs c [] rfl), rfl⟩
        intro before x rest h
        exact hall before x (rest ++ [c]) (by simp [h])

end ForexSuite.Exceptions
