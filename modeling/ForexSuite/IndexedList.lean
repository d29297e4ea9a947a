import Mathlib.Data.Finmap
import Mathlib.Data.List.Nodup

/-!
# Lists with an index of their keys

A list is kept together with a map from the key of each entry to its position.
New entries are appended under a new key, and existing entries are changed
without changing their key. Under these two operations the map stays exact, and
the keys of the list stay different from each other.
-/
namespace ForexSuite.IndexedList

variable {α κ : Type*} [DecidableEq κ] {key : α → κ} {xs : List α}
  {index : Finmap fun _ : κ => ℕ}

/-- The map gives the position of every key of the list, and has no other key. -/
def Indexes (key : α → κ) (xs : List α) (index : Finmap fun _ : κ => ℕ) : Prop :=
  ∀ k i, index.lookup k = some i ↔ (xs.map key)[i]? = some k

theorem indexes_nil : Indexes key [] ∅ := by
  intro k i
  simp

theorem Indexes.lookup_eq_none (h : Indexes key xs index) {k : κ} :
    index.lookup k = none ↔ k ∉ xs.map key := by
  rw [Option.eq_none_iff_forall_ne_some, List.mem_iff_getElem?]
  simp only [ne_eq, h k, not_exists]

theorem Indexes.entry (h : Indexes key xs index) {k : κ} {i : ℕ} (hk : index.lookup k = some i) :
    ∃ x, xs[i]? = some x ∧ key x = k := by
  simpa using (h k i).mp hk

theorem Indexes.append (h : Indexes key xs index) {x : α} (hx : index.lookup (key x) = none) :
    Indexes key (xs ++ [x]) (index.insert (key x) xs.length) := by
  have hnew := h.lookup_eq_none.mp hx
  intro k i
  rw [List.map_append, List.map_singleton]
  by_cases hk : k = key x
  · subst hk
    rw [Finmap.lookup_insert, Option.some_inj]
    constructor
    · intro hi
      rw [← hi, List.getElem?_append_right (by simp)]
      simp
    · intro hi
      by_contra hne
      rcases Nat.lt_or_gt_of_ne hne with hlt | hlt
      · rw [List.getElem?_append_right (by simpa using hlt.le), List.getElem?_eq_none] at hi
        · simp at hi
        · simp only [List.length_map, List.length_singleton]
          omega
      · rw [List.getElem?_append_left (by simpa using hlt)] at hi
        exact hnew (List.mem_of_getElem? hi)
  · rw [Finmap.lookup_insert_of_ne _ hk, h k i]
    rcases Nat.lt_or_ge i (xs.map key).length with hlt | hge
    · rw [List.getElem?_append_left hlt]
    · rw [List.getElem?_eq_none hge, List.getElem?_append_right hge]
      constructor
      · intro hi
        simp at hi
      · intro hi
        obtain ⟨-, rfl⟩ : _ ∧ key x = k := by simpa [List.getElem?_singleton] using hi
        exact absurd rfl hk

omit [DecidableEq κ] in
theorem map_modify_of_key {f : α → α} (hf : ∀ x, key (f x) = key x) (i : ℕ) :
    (xs.modify i f).map key = xs.map key := by
  apply List.ext_getElem?
  intro j
  rw [List.getElem?_map, List.getElem?_map, List.getElem?_modify]
  by_cases hij : i = j
  · cases xs[j]? <;> simp [hij, hf]
  · simp [hij]

theorem Indexes.modify (h : Indexes key xs index) {f : α → α} (hf : ∀ x, key (f x) = key x)
    (i : ℕ) : Indexes key (xs.modify i f) index := by
  intro k j
  rw [map_modify_of_key hf]
  exact h k j

/-- What the entries of a list are after one of them has been changed. -/
theorem mem_modify {f : α → α} {i : ℕ} {x : α} (hx : x ∈ xs.modify i f) :
    (∃ a, xs[i]? = some a ∧ x = f a) ∨ ∃ j, j ≠ i ∧ xs[j]? = some x := by
  obtain ⟨j, hj⟩ := List.mem_iff_getElem?.mp hx
  rw [List.getElem?_modify] at hj
  by_cases hij : i = j
  · cases ha : xs[i]? with
    | none => simp [← hij, ha] at hj
    | some a => exact Or.inl ⟨a, rfl, by simpa [← hij, ha, eq_comm] using hj⟩
  · exact Or.inr ⟨j, fun h => hij h.symm, by simpa [hij] using hj⟩

/-- An exact index leaves no room for two entries with the same key. -/
theorem Indexes.nodup (h : Indexes key xs index) : (xs.map key).Nodup := by
  rw [List.nodup_iff_getElem?_ne_getElem?]
  intro i j hij hj heq
  obtain ⟨k, hk⟩ : ∃ k, (xs.map key)[j]? = some k := ⟨_, List.getElem?_eq_getElem hj⟩
  have hi := (h k i).mpr (heq.trans hk)
  have hj := (h k j).mpr hk
  rw [hi, Option.some_inj] at hj
  omega

end ForexSuite.IndexedList
