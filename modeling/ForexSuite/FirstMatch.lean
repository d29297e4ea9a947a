import Mathlib.Data.List.Basic

/-!
# The first match in a grouped list

A grouped list is searched in two steps: the first group whose key is open is
entered, and its first item that is accepted is the answer. A group is entered
once, so the search ends without an answer when no item of that group is accepted.

Items put behind a list do not change an answer that has been found, and items the
list already has change nothing at all.
-/
namespace ForexSuite.FirstMatch

variable {α β κ : Type*}

theorem find?_append_of_mem {xs ys : List α} (p : α → Bool) (h : ∀ y ∈ ys, y ∈ xs) :
    (xs ++ ys).find? p = xs.find? p := by
  rw [List.find?_append]
  cases hfind : xs.find? p with
  | some x => rfl
  | none =>
      have hnone : ys.find? p = none := by
        rw [List.find?_eq_none]
        intro y hy
        exact List.find?_eq_none.mp hfind y (h y hy)
      rw [hnone]
      rfl

/-- Where `g` has every result that `f` has, and perhaps more, its results contain those of `f`
in the same order. -/
theorem filterMap_sublist_filterMap {f g : α → Option β}
    (h : ∀ x y, f x = some y → g x = some y) (xs : List α) :
    (xs.filterMap f).Sublist (xs.filterMap g) := by
  induction xs with
  | nil => exact List.Sublist.refl _
  | cons x xs ih =>
      cases hf : f x with
      | some y =>
          rw [List.filterMap_cons_some hf, List.filterMap_cons_some (h x y hf)]
          exact ih.cons_cons y
      | none =>
          rw [List.filterMap_cons_none hf]
          cases hg : g x with
          | some y =>
              rw [List.filterMap_cons_some hg]
              exact ih.cons y
          | none =>
              rw [List.filterMap_cons_none hg]
              exact ih

variable [DecidableEq κ]

/-- The first accepted item of the first group that is open. -/
def firstInGroup (keyOf : α → κ) (isOpen : κ → Bool) (accepts : α → Bool) (items : List α) :
    Option α :=
  match (items.map keyOf).find? isOpen with
  | some k => (items.filter fun a => keyOf a = k).find? accepts
  | none => none

variable {keyOf : α → κ} {isOpen : κ → Bool} {accepts : α → Bool} {items more : List α} {a : α}

theorem firstInGroup_append (h : firstInGroup keyOf isOpen accepts items = some a) :
    firstInGroup keyOf isOpen accepts (items ++ more) = some a := by
  unfold firstInGroup at h ⊢
  rw [List.map_append, List.find?_append]
  cases hkey : (items.map keyOf).find? isOpen with
  | none => simp [hkey] at h
  | some k =>
      rw [hkey] at h
      dsimp only [Option.some_or] at h ⊢
      rw [List.filter_append, List.find?_append, h, Option.some_or]

theorem firstInGroup_append_of_mem (h : ∀ b ∈ more, b ∈ items) :
    firstInGroup keyOf isOpen accepts (items ++ more) =
      firstInGroup keyOf isOpen accepts items := by
  have hkeys : ∀ k ∈ more.map keyOf, k ∈ items.map keyOf := by
    intro k hk
    have ⟨b, hb, heq⟩ := List.mem_map.mp hk
    rw [← heq]
    exact List.mem_map_of_mem (h b hb)
  unfold firstInGroup
  rw [List.map_append, find?_append_of_mem isOpen hkeys]
  cases (items.map keyOf).find? isOpen with
  | none => rfl
  | some k =>
      dsimp only
      rw [List.filter_append, find?_append_of_mem]
      intro b hb
      have ⟨hmem, hk⟩ := List.mem_filter.mp hb
      exact List.mem_filter.mpr ⟨h b hmem, hk⟩

end ForexSuite.FirstMatch
