import Mathlib.Algebra.BigOperators.Group.List.Basic
import Mathlib.Tactic.Abel

/-!
# Lists in which one entry at a time is replaced

What a replacement does to a sum over the entries and to the entry at a position.
-/
namespace ForexSuite.ListUpdates

variable {α : Type*} {xs : List α} {i : ℕ} {a b : α}

theorem sum_map_set {M : Type*} [AddCommMonoid M] (f : α → M) (ha : xs[i]? = some a) (b : α) :
    ((xs.set i b).map f).sum + f a = (xs.map f).sum + f b := by
  induction xs generalizing i with
  | nil => simp at ha
  | cons x xs ih =>
      cases i with
      | zero =>
          obtain rfl : x = a := by simpa using ha
          simp only [List.set_cons_zero, List.map_cons, List.sum_cons]
          abel
      | succ i =>
          have hrest := ih (i := i) (by simpa using ha)
          simp only [List.set_cons_succ, List.map_cons, List.sum_cons, add_assoc]
          rw [hrest]

theorem sum_map_toNat (p : α → Bool) (xs : List α) :
    (xs.map fun x => (p x).toNat).sum = xs.countP p := by
  induction xs with
  | nil => rfl
  | cons x xs ih =>
      rw [List.map_cons, List.sum_cons, ih, List.countP_cons, Nat.add_comm]
      cases p x <;> rfl

/-- The entry at a position after a replacement is the new one, or it is an old one. -/
theorem getElem?_set_eq_some {j : ℕ} {x : α} (h : (xs.set i b)[j]? = some x) :
    j = i ∧ x = b ∨ j ≠ i ∧ xs[j]? = some x := by
  rw [List.getElem?_set] at h
  split_ifs at h with hij hlt
  · exact Or.inl ⟨hij.symm, (Option.some_inj.mp h).symm⟩
  · exact Or.inr ⟨Ne.symm hij, h⟩

theorem set_eq_self (ha : xs[i]? = some a) : xs.set i a = xs := by
  obtain ⟨hi, rfl⟩ := List.getElem?_eq_some_iff.mp ha
  exact List.set_getElem_self hi

theorem getElem?_set_of_eq_some (ha : xs[i]? = some a) (b : α) : (xs.set i b)[i]? = some b := by
  rw [List.getElem?_set_self (List.getElem?_eq_some_iff.mp ha).1]

/-- Lists that look the same through `f` have the same entries up to it. -/
theorem exists_mem_of_map_eq {β : Type*} {f : α → β} {ys : List α} (h : ys.map f = xs.map f)
    {y : α} (hy : y ∈ ys) : ∃ x ∈ xs, f x = f y := by
  have hmem : f y ∈ ys.map f := List.mem_map.mpr ⟨y, hy, rfl⟩
  rw [h] at hmem
  exact List.mem_map.mp hmem

end ForexSuite.ListUpdates
