import ForexSuite.EventMachine
import ForexSuite.MapValues
import Mathlib.Algebra.Order.Field.Rat
import Mathlib.Tactic.SplitIfs

/-!
# The order book

`MarketData` keeps the price of every live order twice: in `orderEntry` under the
order's id, and in the multiset `orderPx`, whose last element is the highest
price. An erase removes one order from the first and every copy of its price from
the second.

Prices are rational numbers and timestamps are integers. A NaN has no place in the order of a
`std::multiset`, and is left out.
-/
namespace ForexSuite.OrderBook

open EventMachine MapValues

structure MarketData where
  orderPx : Multiset ℚ
  orderEntry : Finmap (fun _ : ℤ => ℚ)
  totalTimestamp : ℤ
  weightPrice : ℚ
  prevTimestamp : ℤ
  prevPrice : ℚ

/-- What `getHighPrice` does: NaN for an empty book, the last element of `orderPx`, or, where
`orderPx` has none, a read outside of it. -/
inductive HighPrice where
  | quietNaN
  | last (px : ℚ)
  | outOfRange
deriving DecidableEq

/-- One line of the log. -/
inductive Entry where
  | insert (timestamp : ℤ) (id : ℤ) (price : ℚ)
  | erase (timestamp : ℤ) (id : ℤ)

namespace MarketData

def new : MarketData := ⟨0, ∅, 0, 0, 0, 0⟩

def insertOrderEntry (timestamp id : ℤ) (price : ℚ) (s : MarketData) : MarketData where
  weightPrice := s.weightPrice + s.prevPrice * (timestamp - s.prevTimestamp)
  totalTimestamp :=
    if s.orderEntry ≠ ∅ then s.totalTimestamp + (timestamp - s.prevTimestamp)
    else s.totalTimestamp
  prevPrice := price
  prevTimestamp := timestamp
  orderEntry := s.orderEntry.insert id price
  orderPx := price ::ₘ s.orderPx

/-- The `if` of `eraseOrderEntry` on the iterator: the price of the order that leaves, and the
two containers after that. An id that is not found leaves both alone. -/
def takeOrder (id : ℤ) (s : MarketData) : ℚ × MarketData :=
  match s.orderEntry.lookup id with
  | some price =>
      (price, { s with
        orderPx := s.orderPx.filter (· ≠ price)
        orderEntry := s.orderEntry.erase id })
  | none => (0, s)

def eraseOrderEntry (timestamp id : ℤ) (s : MarketData) : MarketData :=
  let price := (s.takeOrder id).1
  let s := (s.takeOrder id).2
  if s.orderEntry ≠ ∅ then
    { s with
      weightPrice := s.weightPrice + s.prevPrice * (timestamp - s.prevTimestamp)
      totalTimestamp := s.totalTimestamp + (timestamp - s.prevTimestamp)
      prevPrice := price
      prevTimestamp := timestamp }
  else
    { s with
      weightPrice := s.weightPrice + price * (timestamp - s.prevTimestamp)
      totalTimestamp := s.totalTimestamp + (timestamp - s.prevTimestamp)
      prevPrice := 0
      prevTimestamp := 0 }

def getHighPrice (s : MarketData) : HighPrice :=
  if s.orderEntry = ∅ then .quietNaN
  else
    match greatest s.orderPx with
    | some px => .last px
    | none => .outOfRange

def printWeightedPx (s : MarketData) : ℚ := s.weightPrice / s.totalTimestamp

end MarketData

def step (s : MarketData) : Entry → MarketData × Unit
  | .insert timestamp id price => (s.insertOrderEntry timestamp id price, ())
  | .erase timestamp id => (s.eraseOrderEntry timestamp id, ())

/-! ### The two containers -/

/-- The multiset holds the price of every order of the map, and nothing else. -/
def Represents (s : MarketData) : Prop := s.orderPx = values s.orderEntry

instance (s : MarketData) : Decidable (Represents s) :=
  inferInstanceAs (Decidable (s.orderPx = values s.orderEntry))

/-- `getHighPrice` gives the highest price of the live orders, where there is one, and it never
reads outside of `orderPx`. -/
def HighPriceRight (s : MarketData) : Prop :=
  (s.orderEntry ≠ ∅ →
    ∃ px, s.getHighPrice = .last px ∧ IsGreatest {p | p ∈ values s.orderEntry} px) ∧
    s.getHighPrice ≠ .outOfRange

theorem Represents.highPriceRight {s : MarketData} (h : Represents s) : HighPriceRight s := by
  unfold HighPriceRight MarketData.getHighPrice
  by_cases hempty : s.orderEntry = ∅
  · simp [hempty]
  · have hne : values s.orderEntry ≠ 0 := fun h0 => hempty (values_eq_zero.mp h0)
    have ⟨px, hpx, hgreatest⟩ := greatest_of_ne_zero hne
    rw [if_neg hempty, h, hpx]
    exact ⟨fun _ => ⟨px, rfl, hgreatest⟩, by simp⟩

/-- The id of an inserted order is not live, and the price of an erased one is held by no other
live order. -/
def OneEach (s : MarketData) : Entry → Prop
  | .insert _ id _ => id ∉ s.orderEntry
  | .erase _ id => ∀ price ∈ s.orderEntry.lookup id, (values s.orderEntry).count price = 1

theorem insertOrderEntry_represents_iff {s : MarketData} (timestamp id : ℤ) (price : ℚ)
    (h : Represents s) :
    Represents (s.insertOrderEntry timestamp id price) ↔ id ∉ s.orderEntry := by
  unfold Represents MarketData.insertOrderEntry
  constructor
  · intro hins hmem
    have ⟨old, hold⟩ := Finmap.mem_iff.mp hmem
    have hreplace := values_replace price hold
    rw [← hins, h] at hreplace
    -- the old price is still in the multiset, so one element too many is
    have hcard := congrArg Multiset.card hreplace
    simp at hcard
  · intro hnot
    rw [values_insert price hnot, h]

/-- Erasing every copy of an element takes one element away exactly if there is one copy. -/
theorem filter_ne_eq_iff {px rest : Multiset ℚ} {price : ℚ} (h : px = price ::ₘ rest) :
    px.filter (· ≠ price) = rest ↔ px.count price = 1 := by
  have hfilter : px.filter (· ≠ price) = rest.filter (· ≠ price) := by
    rw [h, Multiset.filter_cons_of_neg _ (by simp)]
  rw [hfilter, Multiset.filter_eq_self, h, Multiset.count_cons_self, Nat.add_eq_right,
    Multiset.count_eq_zero]
  constructor
  · intro hne hmem
    exact hne price hmem rfl
  · intro hnot p hp heq
    exact hnot (heq ▸ hp)

@[simp] theorem eraseOrderEntry_orderPx (timestamp id : ℤ) (s : MarketData) :
    (s.eraseOrderEntry timestamp id).orderPx = (s.takeOrder id).2.orderPx := by
  unfold MarketData.eraseOrderEntry
  dsimp only
  split_ifs <;> rfl

@[simp] theorem eraseOrderEntry_orderEntry (timestamp id : ℤ) (s : MarketData) :
    (s.eraseOrderEntry timestamp id).orderEntry = (s.takeOrder id).2.orderEntry := by
  unfold MarketData.eraseOrderEntry
  dsimp only
  split_ifs <;> rfl

/-- Erasing the only live order. -/
theorem eraseOrderEntry_only {s : MarketData} {id : ℤ} {price : ℚ} (timestamp : ℤ)
    (hprice : s.orderEntry.lookup id = some price) (hrest : s.orderEntry.erase id = ∅) :
    s.eraseOrderEntry timestamp id =
      ⟨s.orderPx.filter (· ≠ price), s.orderEntry.erase id,
        s.totalTimestamp + (timestamp - s.prevTimestamp),
        s.weightPrice + price * (timestamp - s.prevTimestamp), 0, 0⟩ := by
  rw [MarketData.eraseOrderEntry, MarketData.takeOrder, hprice]
  simp only [hrest, ne_eq, not_true_eq_false, if_false]

/-- Erasing a live order that is not the only one. -/
theorem eraseOrderEntry_other {s : MarketData} {id : ℤ} {price : ℚ} (timestamp : ℤ)
    (hprice : s.orderEntry.lookup id = some price) (hrest : s.orderEntry.erase id ≠ ∅) :
    s.eraseOrderEntry timestamp id =
      ⟨s.orderPx.filter (· ≠ price), s.orderEntry.erase id,
        s.totalTimestamp + (timestamp - s.prevTimestamp),
        s.weightPrice + s.prevPrice * (timestamp - s.prevTimestamp), timestamp, price⟩ := by
  rw [MarketData.eraseOrderEntry, MarketData.takeOrder, hprice]
  simp only [if_pos hrest]

/-- An erase under an id that is not live leaves the orders alone, and the clock and the carried
price are changed all the same. -/
theorem eraseOrderEntry_unknown {s : MarketData} {id : ℤ} (timestamp : ℤ)
    (hid : id ∉ s.orderEntry) :
    s.eraseOrderEntry timestamp id =
      if s.orderEntry = ∅ then
        { s with
          totalTimestamp := s.totalTimestamp + (timestamp - s.prevTimestamp)
          prevTimestamp := 0
          prevPrice := 0 }
      else
        { s with
          weightPrice := s.weightPrice + s.prevPrice * (timestamp - s.prevTimestamp)
          totalTimestamp := s.totalTimestamp + (timestamp - s.prevTimestamp)
          prevTimestamp := timestamp
          prevPrice := 0 } := by
  rw [MarketData.eraseOrderEntry, MarketData.takeOrder, Finmap.lookup_eq_none.mpr hid]
  by_cases hempty : s.orderEntry = ∅ <;> simp [hempty]

theorem eraseOrderEntry_represents_iff {s : MarketData} (timestamp id : ℤ) (h : Represents s) :
    Represents (s.eraseOrderEntry timestamp id) ↔
      ∀ price ∈ s.orderEntry.lookup id, (values s.orderEntry).count price = 1 := by
  unfold Represents
  rw [eraseOrderEntry_orderPx, eraseOrderEntry_orderEntry, MarketData.takeOrder]
  cases hid : s.orderEntry.lookup id with
  | none => simp [show s.orderPx = values s.orderEntry from h]
  | some price =>
      have hvalues := values_of_lookup hid
      rw [← h] at hvalues ⊢
      simpa using filter_ne_eq_iff hvalues

theorem step_represents_iff {s : MarketData} (e : Entry) (h : Represents s) :
    Represents (step s e).1 ↔ OneEach s e := by
  cases e with
  | insert timestamp id price => exact insertOrderEntry_represents_iff timestamp id price h
  | erase timestamp id => exact eraseOrderEntry_represents_iff timestamp id h

/-- After every sequence of calls the multiset holds the prices of the map, and the high price is
right, exactly when no call inserts under a live id and none erases an order whose price another
live order has as well. -/
theorem represents_iff_oneEach (entries : List Entry) :
    (∀ k, let s := run step .new (entries.take k); Represents s ∧ HighPriceRight s) ↔
      Along step OneEach .new entries := by
  have hiff :
      (∀ k, Represents (run step .new (entries.take k))) ↔ Along step OneEach .new entries :=
    forall_take_iff_along (fun _ => True) Represents (fun _ _ _ => trivial)
      (fun _ e _ hs => step_represents_iff e hs) trivial rfl
  rw [← hiff]
  constructor
  · intro h k
    exact (h k).1
  · intro h k
    exact ⟨h k, (h k).highPriceRight⟩

/-- Of two orders with one price the first leaves, and the book that is left is not empty but
its multiset is. -/
theorem equal_prices_leave_together :
    let s := run step .new [.insert 1000 100 13, .insert 2000 101 13, .erase 2400 100]
    ¬ Represents s ∧ s.orderEntry ≠ ∅ ∧ s.getHighPrice = .outOfRange := by
  intro s
  decide

end ForexSuite.OrderBook
