import Mathlib.Data.List.Basic

/-!
# Positions in a string

`std::string` searches return a position, or `npos` where there is none. `npos` is
the largest unsigned number, so that the position behind it is zero. `substr` throws
where it would begin behind the end of the string.
-/
namespace ForexSuite.StringSearch

variable {α : Type*}

/-- `std::out_of_range`. -/
inductive StringException where
  | outOfRange
deriving Repr, DecidableEq

/-- `substr(pos, count)`, the count being `npos` if it is not given. -/
def substr (s : List α) (pos : ℕ) : Option ℕ → Except StringException (List α)
  | some count => if pos ≤ s.length then .ok ((s.drop pos).take count) else .error .outOfRange
  | none => if pos ≤ s.length then .ok (s.drop pos) else .error .outOfRange

/-- `pos + 1`, which wraps for `npos`. -/
def behind : Option ℕ → ℕ
  | some pos => pos + 1
  | none => 0

theorem substr_append (before item after : List α) :
    substr (before ++ (item ++ after)) before.length (some item.length) = .ok item := by
  rw [substr, if_pos (by simp), List.drop_left, List.take_left]

theorem substr_end (before rest : List α) :
    substr (before ++ rest) before.length none = .ok rest := by
  rw [substr, if_pos (by simp), List.drop_left]

variable [DecidableEq α]

/-- The first position of the element, from `pos` on. -/
def find (s : List α) (c : α) (pos : ℕ) : Option ℕ :=
  ((s.drop pos).findIdx? (· = c)).map (pos + ·)

/-- The last position of the element. -/
def findLastOf (s : List α) (c : α) : Option ℕ :=
  (s.reverse.findIdx? (· = c)).map (s.length - 1 - ·)

theorem find_bounds {s : List α} {c : α} {pos i : ℕ} (h : find s c pos = some i) :
    pos ≤ i ∧ i < s.length := by
  obtain ⟨j, hj, rfl⟩ := Option.map_eq_some_iff.mp h
  have hlt : j < (s.drop pos).length := (List.findIdx?_eq_some_iff_getElem.mp hj).1
  rw [List.length_drop] at hlt
  omega

theorem findIdx?_append_cons {item : List α} {c : α} (rest : List α) (h : c ∉ item) :
    (item ++ c :: rest).findIdx? (· = c) = some item.length := by
  induction item with
  | nil => simp [List.findIdx?_cons]
  | cons d item ih =>
      have hd : d ≠ c := fun heq => h (by simp [heq])
      rw [List.cons_append, List.findIdx?_cons, ih fun hmem => h (List.mem_cons_of_mem _ hmem)]
      simp [hd]

theorem findIdx?_of_notMem {s : List α} {c : α} (h : c ∉ s) : s.findIdx? (· = c) = none := by
  rw [List.findIdx?_eq_none_iff]
  intro d hd
  have hne : d ≠ c := fun heq => h (heq ▸ hd)
  simpa using hne

theorem find_append (before : List α) {item : List α} {c : α} (rest : List α) (h : c ∉ item) :
    find (before ++ (item ++ c :: rest)) c before.length =
      some (before.length + item.length) := by
  rw [find, List.drop_left, findIdx?_append_cons rest h, Option.map_some]

theorem find_of_notMem (before : List α) {rest : List α} {c : α} (h : c ∉ rest) :
    find (before ++ rest) c before.length = none := by
  rw [find, List.drop_left, findIdx?_of_notMem h, Option.map_none]

theorem findLastOf_append (before : List α) {c : α} {rest : List α} (h : c ∉ rest) :
    findLastOf (before ++ c :: rest) c = some before.length := by
  have hreverse : (before ++ c :: rest).reverse = rest.reverse ++ c :: before.reverse := by simp
  have hnot : c ∉ rest.reverse := by rwa [List.mem_reverse]
  rw [findLastOf, hreverse, findIdx?_append_cons _ hnot, Option.map_some, List.length_append,
    List.length_cons, List.length_reverse]
  congr 1
  omega

theorem findLastOf_of_notMem {s : List α} {c : α} (h : c ∉ s) : findLastOf s c = none := by
  have hnot : c ∉ s.reverse := by rwa [List.mem_reverse]
  rw [findLastOf, findIdx?_of_notMem hnot, Option.map_none]

end ForexSuite.StringSearch
