import Mathlib.Data.Finmap
import Mathlib.Data.Finset.Max
import Mathlib.Order.Bounds.Basic

/-!
# The values and the keys of a finite map

`values m` collects what a map stores, as often as it stores it, and `greatest`
is the largest element of such a collection. The lemmas say what an insertion
and an erasure do to the collection and to the keys.
-/
namespace ForexSuite.MapValues

variable {κ ν : Type*}

def values (m : Finmap fun _ : κ => ν) : Multiset ν := m.entries.map Sigma.snd

@[simp] theorem values_empty : values (∅ : Finmap fun _ : κ => ν) = 0 := rfl

theorem values_eq_zero {m : Finmap fun _ : κ => ν} : values m = 0 ↔ m = ∅ := by
  constructor
  · intro h
    exact Finmap.ext (Multiset.map_eq_zero.mp h)
  · intro h
    rw [h, values_empty]

@[simp] theorem values_singleton (k : κ) (v : ν) : values (Finmap.singleton k v) = {v} := rfl

theorem values_eq_singleton {m : Finmap fun _ : κ => ν} {v : ν} :
    values m = {v} ↔ ∃ k, m = Finmap.singleton k v := by
  constructor
  · intro h
    have ⟨⟨k, w⟩, hentries, hw⟩ := Multiset.map_eq_singleton.mp h
    cases hw
    exact ⟨k, Finmap.ext hentries⟩
  · intro ⟨k, h⟩
    rw [h, values_singleton]

section Updates

variable [DecidableEq κ]

theorem values_insert {m : Finmap fun _ : κ => ν} {k : κ} (v : ν) (h : k ∉ m) :
    values (m.insert k v) = v ::ₘ values m := by
  unfold values
  rw [Finmap.entries_insert_of_notMem h, Multiset.map_cons]

theorem insert_erase (m : Finmap fun _ : κ => ν) (k : κ) (v : ν) :
    (m.erase k).insert k v = m.insert k v := by
  apply Finmap.ext_lookup
  intro x
  by_cases hx : x = k
  · rw [hx, Finmap.lookup_insert, Finmap.lookup_insert]
  · rw [Finmap.lookup_insert_of_ne _ hx, Finmap.lookup_insert_of_ne _ hx,
      Finmap.lookup_erase_ne hx]

theorem insert_of_lookup {m : Finmap fun _ : κ => ν} {k : κ} {v : ν} (h : m.lookup k = some v) :
    m.insert k v = m := by
  apply Finmap.ext_lookup
  intro x
  by_cases hx : x = k
  · rw [hx, Finmap.lookup_insert, h]
  · rw [Finmap.lookup_insert_of_ne _ hx]

/-- A key's value, and what is left without the key. -/
theorem values_of_lookup {m : Finmap fun _ : κ => ν} {k : κ} {v : ν} (h : m.lookup k = some v) :
    values m = v ::ₘ values (m.erase k) := by
  have hm : (m.erase k).insert k v = m := by rw [insert_erase, insert_of_lookup h]
  rw [← values_insert v Finmap.notMem_erase_self, hm]

/-- An insertion under a key that is present replaces the key's value. -/
theorem values_replace {m : Finmap fun _ : κ => ν} {k : κ} {v : ν} (w : ν)
    (h : m.lookup k = some v) : v ::ₘ values (m.insert k w) = w ::ₘ values m := by
  rw [← insert_erase, values_insert w Finmap.notMem_erase_self, values_of_lookup h,
    Multiset.cons_swap]

theorem erase_of_notMem {m : Finmap fun _ : κ => ν} {k : κ} (h : k ∉ m) : m.erase k = m := by
  apply Finmap.ext_lookup
  intro x
  by_cases hx : x = k
  · rw [hx, Finmap.lookup_erase, Finmap.lookup_eq_none.mpr h]
  · rw [Finmap.lookup_erase_ne hx]

theorem keys_insert (m : Finmap fun _ : κ => ν) (k : κ) (v : ν) :
    (m.insert k v).keys = insert k m.keys := by
  ext x
  rw [Finmap.mem_keys, Finmap.mem_insert, Finset.mem_insert, Finmap.mem_keys]

theorem keys_erase (m : Finmap fun _ : κ => ν) (k : κ) : (m.erase k).keys = m.keys.erase k := by
  ext x
  rw [Finmap.mem_keys, Finmap.mem_erase, Finset.mem_erase, Finmap.mem_keys]

/-- An insertion that leaves a key alone that is there already. -/
def insertNew (k : κ) (v : ν) (m : Finmap fun _ : κ => ν) : Finmap fun _ : κ => ν :=
  if k ∈ m then m else m.insert k v

@[simp] theorem insertNew_empty (k : κ) (v : ν) :
    insertNew k v (∅ : Finmap fun _ : κ => ν) = Finmap.singleton k v := rfl

@[simp] theorem insertNew_singleton (k : κ) (v w : ν) :
    insertNew k v (Finmap.singleton k w) = Finmap.singleton k w := by
  have hmem : k ∈ (Finmap.singleton k w : Finmap fun _ : κ => ν) := by rw [Finmap.mem_singleton]
  rw [insertNew, if_pos hmem]

end Updates

section Greatest

variable [LinearOrder ν]

def greatest (vs : Multiset ν) : Option ν := vs.toFinset.max

theorem greatest_eq_none {vs : Multiset ν} : greatest vs = none ↔ vs = 0 := by
  unfold greatest
  exact Finset.max_eq_bot.trans Multiset.toFinset_eq_empty

theorem greatest_isGreatest {vs : Multiset ν} {v : ν} (h : greatest vs = some v) :
    IsGreatest {w | w ∈ vs} v := by
  constructor
  · exact Multiset.mem_toFinset.mp (Finset.mem_of_max h)
  · intro w hw
    exact Finset.le_max_of_eq (Multiset.mem_toFinset.mpr hw) h

theorem greatest_of_ne_zero {vs : Multiset ν} (h : vs ≠ 0) :
    ∃ v, greatest vs = some v ∧ IsGreatest {w | w ∈ vs} v := by
  cases hv : greatest vs with
  | none => exact (h (greatest_eq_none.mp hv)).elim
  | some v => exact ⟨v, rfl, greatest_isGreatest hv⟩

end Greatest

end ForexSuite.MapValues
