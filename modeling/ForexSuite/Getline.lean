import Mathlib.Init

/-!
# Reading a text item by item

`std::getline` with a delimiter returns the items of a stream one after the other.
It differs from splitting at the delimiter in the end of the stream only: an item
that is empty there is not returned.
-/
namespace ForexSuite.Getline

variable {α : Type*} [DecidableEq α]

/-- The loop around `std::getline`: the item read so far and the rest of the stream. -/
def getlineLoop (delim : α) : List α → List α → List (List α)
  | item, [] => if item = [] then [] else [item]
  | item, c :: s =>
      if c = delim then item :: getlineLoop delim [] s
      else getlineLoop delim (item ++ [c]) s

/-- The items of a stream. -/
def getlines (delim : α) (s : List α) : List (List α) := getlineLoop delim [] s

def withoutEmptyEnd (items : List (List α)) : List (List α) :=
  if items.getLast? = some [] then items.dropLast else items

theorem withoutEmptyEnd_cons (item : List α) {items : List (List α)} (h : items ≠ []) :
    withoutEmptyEnd (item :: items) = item :: withoutEmptyEnd items := by
  unfold withoutEmptyEnd
  rw [List.getLast?_cons_of_ne_nil h, List.dropLast_cons_of_ne_nil h]
  split <;> rfl

theorem getlineLoop_eq (delim : α) (item s : List α) :
    getlineLoop delim item s = withoutEmptyEnd ((s.splitOn delim).modifyHead (item ++ ·)) := by
  induction s generalizing item with
  | nil =>
      by_cases h : item = []
      · simp [getlineLoop, withoutEmptyEnd, h]
      · simp [getlineLoop, withoutEmptyEnd, h]
  | cons c s ih =>
      rw [getlineLoop, List.splitOn_cons_eq_if_modifyHead]
      by_cases h : c = delim
      · have hne : s.splitOn delim ≠ [] := List.splitOn_ne_nil delim s
        have hid : (s.splitOn delim).modifyHead (([] : List α) ++ ·) = s.splitOn delim := by
          cases s.splitOn delim <;> rfl
        rw [if_pos h, if_pos (by simp [h]), ih, hid, List.modifyHead_cons,
          withoutEmptyEnd_cons _ hne, List.append_nil]
      · rw [if_neg h, if_neg (by simp [h]), ih]
        cases s.splitOn delim with
        | nil => rfl
        | cons first rest => simp

/-- The items are the pieces between the delimiters, the last one only if it is not empty. -/
theorem getlines_eq (delim : α) (s : List α) :
    getlines delim s = withoutEmptyEnd (s.splitOn delim) := by
  rw [getlines, getlineLoop_eq]
  cases s.splitOn delim <;> rfl

/-- Items joined by the delimiter are read back, if the last one is not empty. -/
theorem getlines_intercalate {delim : α} {items : List (List α)} (hne : items ≠ [])
    (hitems : ∀ item ∈ items, delim ∉ item) (hlast : items.getLast? ≠ some []) :
    getlines delim ([delim].intercalate items) = items := by
  rw [getlines_eq, List.splitOn_intercalate delim hitems hne, withoutEmptyEnd, if_neg hlast]

/-- A single `std::getline`: the item, and the rest of the stream if the delimiter was found.
Without it the end of the stream has been reached. -/
def getline (delim : α) : List α → List α × Option (List α)
  | [] => ([], none)
  | c :: s =>
      if c = delim then ([], some s)
      else (c :: (getline delim s).1, (getline delim s).2)

theorem getline_of_notMem {delim : α} {s : List α} (h : delim ∉ s) :
    getline delim s = (s, none) := by
  induction s with
  | nil => rfl
  | cons c s ih =>
      have hc : c ≠ delim := fun heq => h (by simp [heq])
      rw [getline, if_neg hc, ih fun hmem => h (List.mem_cons_of_mem _ hmem)]

theorem getline_append {delim : α} {item : List α} (rest : List α) (h : delim ∉ item) :
    getline delim (item ++ delim :: rest) = (item, some rest) := by
  induction item with
  | nil => simp [getline]
  | cons c item ih =>
      have hc : c ≠ delim := fun heq => h (by simp [heq])
      rw [List.cons_append, getline, if_neg hc, ih fun hmem => h (List.mem_cons_of_mem _ hmem)]

theorem getline_some {delim : α} {s item rest : List α} (h : getline delim s = (item, some rest)) :
    s = item ++ delim :: rest ∧ delim ∉ item := by
  by_cases hmem : delim ∈ s
  · obtain ⟨before, after, rfl, hbefore⟩ := List.eq_append_cons_of_mem hmem
    rw [getline_append after hbefore] at h
    cases h
    exact ⟨rfl, hbefore⟩
  · rw [getline_of_notMem hmem] at h
    cases h

/-- A delimiter that is found is taken from the stream. -/
theorem getline_length_lt {delim : α} {s item rest : List α}
    (h : getline delim s = (item, some rest)) : rest.length < s.length := by
  rw [(getline_some h).1, List.length_append, List.length_cons]
  omega

/-- The induction over what a loop of `getline` reads: the last item, or an item and its delimiter,
any shorter stream being done. -/
theorem split_induction (delim : α) {P : List α → Prop} (last : ∀ s, delim ∉ s → P s)
    (split : ∀ item rest, delim ∉ item → (∀ s, s.length ≤ rest.length → P s) →
      P (item ++ delim :: rest)) (s : List α) : P s := by
  induction hn : s.length using Nat.strongRecOn generalizing s with
  | _ n ih =>
      by_cases hmem : delim ∈ s
      · obtain ⟨item, rest, rfl, hitem⟩ := List.eq_append_cons_of_mem hmem
        refine split item rest hitem fun t ht => ih t.length ?_ t rfl
        rw [List.length_append, List.length_cons] at hn
        omega
      · exact last s hmem

/-! ### The pieces between the delimiters -/

theorem notMem_of_mem_splitOn {delim : α} {s item : List α} (h : item ∈ s.splitOn delim) :
    delim ∉ item := by
  induction s using split_induction delim with
  | last s hnone =>
      rw [List.splitOn_eq_singleton hnone, List.mem_singleton] at h
      rwa [h]
  | split piece rest hpiece ih =>
      rw [List.splitOn_append_cons_self_of_not_mem hpiece, List.mem_cons] at h
      rcases h with rfl | h
      · exact hpiece
      · exact ih rest (Nat.le_refl _) h

theorem length_splitOn (delim : α) (s : List α) :
    (s.splitOn delim).length = s.count delim + 1 := by
  induction s using split_induction delim with
  | last s hnone =>
      rw [List.splitOn_eq_singleton hnone, List.count_eq_zero_of_not_mem hnone]
      rfl
  | split piece rest hpiece ih =>
      rw [List.splitOn_append_cons_self_of_not_mem hpiece, List.length_cons,
        ih rest (Nat.le_refl _), List.count_append, List.count_eq_zero_of_not_mem hpiece,
       List.count_cons_self, Nat.zero_add]

/-- Items that are all followed by the delimiter. -/
theorem intercalate_append_nil {β : Type*} (delim : β) (items : List (List β)) :
    [delim].intercalate (items ++ [[]]) = items.flatMap fun item => item ++ [delim] := by
  induction items with
  | nil => rfl
  | cons item items ih =>
      have hne : items ++ [[]] ≠ [] := by simp
      rw [List.cons_append, List.intercalate_cons_of_ne_nil hne, ih, List.flatMap_cons,
        List.append_assoc]

end ForexSuite.Getline
