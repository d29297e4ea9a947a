import ForexSuite.IndexedList

/-!
# Grouping by a key

A list is grouped by a key when there is one group for each key that occurs, in
the order of the first occurrences, and each group holds the items of its key in
order. Groups kept together with an exact index of their keys can be extended by
one item: a new group is appended, or the group the index points to takes the
item.
-/
namespace ForexSuite.GroupBy

open IndexedList

variable {α β κ : Type*} [DecidableEq κ]

/-- The keys that occur, each where it occurs first. -/
def distinct (ks : List κ) : List κ := ks.eraseDups

theorem distinct_concat (ks : List κ) (k : κ) :
    distinct (ks ++ [k]) = if k ∈ ks then distinct ks else distinct ks ++ [k] := by
  unfold distinct
  rw [List.eraseDups_append]
  by_cases hk : k ∈ ks
  · simp [List.removeAll, hk]
  · simp [List.removeAll, hk, List.eraseDups_cons]

theorem distinct_append (ks ls : List κ) :
    distinct (ks ++ ls) = distinct ks ++ distinct (ls.removeAll ks) :=
  List.eraseDups_append

theorem distinct_append_of_mem {ks ls : List κ} (h : ∀ l ∈ ls, l ∈ ks) :
    distinct (ks ++ ls) = distinct ks := by
  have hnone : ls.removeAll ks = [] := by simpa [List.removeAll] using h
  rw [distinct_append, hnone]
  simp [distinct]

theorem mem_distinct {ks : List κ} {k : κ} : k ∈ distinct ks ↔ k ∈ ks := List.mem_eraseDups

/-- The first key that is found does not depend on the repetitions. -/
theorem find?_distinct (ks : List κ) (p : κ → Bool) : (distinct ks).find? p = ks.find? p := by
  induction ks using List.reverseRecOn with
  | nil => rfl
  | append_singleton ks l ih =>
      rw [distinct_concat, List.find?_append]
      by_cases hl : l ∈ ks
      · rw [if_pos hl, ih]
        cases hfind : ks.find? p with
        | some k => rfl
        | none =>
            have hnot := List.find?_eq_none.mp hfind l hl
            simp [hnot]
      · rw [if_neg hl, List.find?_append, ih]

/-- `bs` are the groups of `items`; `Holds` says what it means for a group to hold a list of
items. -/
structure Grouped (keyOf : α → κ) (key : β → κ) (Holds : β → List α → Prop) (bs : List β)
    (items : List α) : Prop where
  keys : bs.map key = distinct (items.map keyOf)
  holds : ∀ b ∈ bs, Holds b (items.filter fun a => keyOf a = key b)

variable {keyOf : α → κ} {key : β → κ} {Holds : β → List α → Prop} {bs : List β} {items : List α}
  {index : Finmap fun _ : κ => ℕ} {a : α}

theorem grouped_nil : Grouped keyOf key Holds [] [] := ⟨rfl, by simp⟩

theorem Grouped.mem_keys (h : Grouped keyOf key Holds bs items) {k : κ} :
    k ∈ bs.map key ↔ k ∈ items.map keyOf := by
  rw [h.keys, mem_distinct]

/-- The group that a search through the keys enters. -/
theorem Grouped.find?_keys (h : Grouped keyOf key Holds bs items) (p : κ → Bool) :
    (items.map keyOf).find? p = (bs.find? fun b => p (key b)).map key := by
  rw [← find?_distinct, ← h.keys, List.find?_map]
  rfl

theorem filter_concat_of_eq {k : κ} (h : keyOf a = k) :
    (items ++ [a]).filter (fun a => keyOf a = k) = items.filter (fun a => keyOf a = k) ++ [a] := by
  simp [h]

theorem filter_concat_of_ne {k : κ} (h : keyOf a ≠ k) :
    (items ++ [a]).filter (fun a => keyOf a = k) = items.filter (fun a => keyOf a = k) := by
  simp [h]

/-- An item with a new key starts a group. -/
theorem Grouped.append (h : Grouped keyOf key Holds bs items) (hindex : Indexes key bs index)
    (ha : index.lookup (keyOf a) = none) {b : β} (hb : key b = keyOf a) (hholds : Holds b [a]) :
    Grouped keyOf key Holds (bs ++ [b]) (items ++ [a]) := by
  have hnew : keyOf a ∉ items.map keyOf := h.mem_keys.not.mp (hindex.lookup_eq_none.mp ha)
  constructor
  · rw [List.map_append, List.map_append, List.map_singleton, List.map_singleton,
      distinct_concat, if_neg hnew, h.keys, hb]
  · intro x hx
    rcases List.mem_append.mp hx with hx | hx
    · have hne : keyOf a ≠ key x := by
        intro heq
        exact hnew (h.mem_keys.mp (heq ▸ List.mem_map_of_mem hx))
      rw [filter_concat_of_ne hne]
      exact h.holds x hx
    · rw [List.mem_singleton.mp hx, filter_concat_of_eq hb.symm]
      have hempty : items.filter (fun a => keyOf a = key b) = [] := by
        rw [List.filter_eq_nil_iff]
        intro y hy heq
        rw [decide_eq_true_iff, hb] at heq
        exact hnew (heq ▸ List.mem_map_of_mem hy)
      rw [hempty]
      exact hholds

/-- An item with a known key goes to the end of its group. -/
theorem Grouped.modify (h : Grouped keyOf key Holds bs items) (hindex : Indexes key bs index)
    {i : ℕ} (hi : index.lookup (keyOf a) = some i) {f : β → β} (hkey : ∀ b, key (f b) = key b)
    (hf : ∀ b l, Holds b l → Holds (f b) (l ++ [a])) :
    Grouped keyOf key Holds (bs.modify i f) (items ++ [a]) := by
  have ⟨b, hb, hbkey⟩ := hindex.entry hi
  have hbmem := List.mem_of_getElem? hb
  have hold : keyOf a ∈ items.map keyOf := h.mem_keys.mp (hbkey ▸ List.mem_map_of_mem hbmem)
  constructor
  · rw [map_modify_of_key hkey, List.map_append, List.map_singleton, distinct_concat,
      if_pos hold, h.keys]
  · intro x hx
    cases mem_modify hx with
    | inl hx =>
        have ⟨b', hb', hxb⟩ := hx
        obtain rfl : b = b' := Option.some.inj (hb.symm.trans hb')
        rw [hxb, hkey, filter_concat_of_eq hbkey.symm]
        exact hf b _ (h.holds b hbmem)
    | inr hx =>
        have ⟨j, hj, hxj⟩ := hx
        -- the index gives the key's only position
        have hne : keyOf a ≠ key x := by
          intro heq
          have hlookup := (hindex (keyOf a) j).mpr (by simp [hxj, heq])
          exact hj (Option.some.inj (hlookup.symm.trans hi))
        rw [filter_concat_of_ne hne]
        exact h.holds x (List.mem_of_getElem? hxj)

/-- Groups that hold a list do not hold it with one more item, where no single group does. -/
theorem Grouped.not_concat (h : Grouped keyOf key Holds bs items)
    (hHolds : ∀ b l, Holds b l → ¬ Holds b (l ++ [a])) :
    ¬ Grouped keyOf key Holds bs (items ++ [a]) := by
  intro h'
  have hkey : keyOf a ∈ bs.map key := h'.mem_keys.mpr (by simp)
  have ⟨b, hb, heq⟩ := List.mem_map.mp hkey
  have hmore := h'.holds b hb
  rw [filter_concat_of_eq heq.symm] at hmore
  exact hHolds b _ (h.holds b hb) hmore

end ForexSuite.GroupBy
