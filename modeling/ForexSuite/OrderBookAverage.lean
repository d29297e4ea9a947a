import ForexSuite.OrderBook
import Mathlib.Tactic.Ring

/-!
# The weighted price of a log

Between two consecutive entries of a log the set of live orders does not change.
The weighted price the book prints is meant to be the average over these
intervals, by their length, of the highest live price. `MarketData` carries a
single price from one entry to the next: the one of the order the last entry
named.
-/
namespace ForexSuite.OrderBook

open EventMachine MapValues

def Entry.timestamp : Entry → ℤ
  | .insert timestamp _ _ => timestamp
  | .erase timestamp _ => timestamp

/-- The time between two consecutive entries, and the orders that are live in it. -/
structure Interval where
  live : Finmap (fun _ : ℤ => ℚ)
  length : ℤ

/-- What the entries so far say: the live orders, the time of the last entry, and the price of
the order it inserted or erased. -/
structure Ledger where
  live : Finmap (fun _ : ℤ => ℚ)
  now : ℤ
  named : ℚ

namespace Ledger

def new : Ledger := ⟨∅, 0, 0⟩

def after (l : Ledger) : Entry → Ledger
  | .insert timestamp id price => ⟨l.live.insert id price, timestamp, price⟩
  | .erase timestamp id => ⟨l.live.erase id, timestamp, (l.live.lookup id).getD 0⟩

/-- Every entry ends an interval. -/
def step (l : Ledger) (e : Entry) : Ledger × Interval := (l.after e, ⟨l.live, e.timestamp - l.now⟩)

/-- An order is inserted under an id that is not live, and erased under one that is. -/
def Admits (l : Ledger) : Entry → Prop
  | .insert _ id _ => id ∉ l.live
  | .erase _ id => id ∈ l.live

instance (l : Ledger) : (e : Entry) → Decidable (l.Admits e)
  | .insert _ id _ => inferInstanceAs (Decidable (id ∉ l.live))
  | .erase _ id => inferInstanceAs (Decidable (id ∈ l.live))

/-- An order is erased under an id that is live. Any id may be inserted. -/
def ErasesLive (l : Ledger) : Entry → Prop
  | .insert _ _ _ => True
  | .erase _ id => id ∈ l.live

instance (l : Ledger) : (e : Entry) → Decidable (l.ErasesLive e)
  | .insert _ _ _ => inferInstanceAs (Decidable True)
  | .erase _ id => inferInstanceAs (Decidable (id ∈ l.live))

theorem Admits.erasesLive {l : Ledger} {e : Entry} (h : l.Admits e) : l.ErasesLive e := by
  cases e with
  | insert timestamp id price => trivial
  | erase timestamp id => exact h

end Ledger

/-- The intervals between the entries in which some order is live. The one before the first
entry has none. -/
def intervals (log : List Entry) : List Interval :=
  (trace Ledger.step .new log).filter (·.live ≠ ∅)

def highest (live : Finmap fun _ : ℤ => ℚ) : ℚ := (greatest (values live)).getD 0

def weightedLength (is : List Interval) : ℚ := (is.map fun i => highest i.live * i.length).sum

def totalLength (is : List Interval) : ℤ := (is.map Interval.length).sum

theorem highest_isGreatest {live : Finmap fun _ : ℤ => ℚ} (h : live ≠ ∅) :
    IsGreatest {p | p ∈ values live} (highest live) := by
  have hne : values live ≠ 0 := fun h0 => h (values_eq_zero.mp h0)
  have ⟨px, hpx, hgreatest⟩ := greatest_of_ne_zero hne
  unfold highest
  rw [hpx]
  exact hgreatest

theorem highest_of_only {live : Finmap fun _ : ℤ => ℚ} {id : ℤ} {price : ℚ}
    (h : live.lookup id = some price) (hrest : live.erase id = ∅) : highest live = price := by
  unfold highest
  rw [values_of_lookup h, hrest, values_empty]
  rfl

/-! ### What the entries add -/

/-- `e` erases the only live order. -/
def Ledger.ErasesOnly (l : Ledger) : Entry → Prop
  | .insert _ _ _ => False
  | .erase _ id => l.live.erase id = ∅

instance (l : Ledger) : (e : Entry) → Decidable (l.ErasesOnly e)
  | .insert _ _ _ => inferInstanceAs (Decidable False)
  | .erase _ id => inferInstanceAs (Decidable (l.live.erase id = ∅))

/-- The price `MarketData` multiplies the length of the interval that `e` ends with: the price of
the last entry's order, unless `e` erases the only order there is. -/
def Ledger.carried (l : Ledger) : Entry → ℚ
  | .insert _ _ _ => l.named
  | .erase _ id => if l.live.erase id = ∅ then (l.live.lookup id).getD 0 else l.named

/-- The state as the entries so far determine it. -/
structure Tracks (s : MarketData) (l : Ledger) : Prop where
  live : s.orderEntry = l.live
  emptied : l.live = ∅ → s.prevPrice = 0
  carries : l.live ≠ ∅ → s.prevPrice = l.named ∧ s.prevTimestamp = l.now

theorem tracks_new : Tracks .new .new := ⟨rfl, fun _ => rfl, fun h => (h rfl).elim⟩

theorem insert_ne_empty (live : Finmap fun _ : ℤ => ℚ) (id : ℤ) (price : ℚ) :
    live.insert id price ≠ ∅ := by
  intro h
  have hmem : id ∈ live.insert id price := Finmap.mem_insert.mpr (Or.inl rfl)
  rw [h] at hmem
  exact Finmap.notMem_empty hmem

theorem ne_empty_of_mem {live : Finmap fun _ : ℤ => ℚ} {id : ℤ} (h : id ∈ live) : live ≠ ∅ := by
  intro hempty
  rw [hempty] at h
  exact Finmap.notMem_empty h

/-- What erasing a live order does, by whether another one is left. -/
theorem eraseOrderEntry_cases {s : MarketData} {l : Ledger} {id : ℤ} (timestamp : ℤ)
    (h : Tracks s l) (hid : id ∈ l.live) :
    ∃ price px, l.live.lookup id = some price ∧
      (l.live.erase id = ∅ ∧ s.eraseOrderEntry timestamp id =
          ⟨px, l.live.erase id, s.totalTimestamp + (timestamp - l.now),
            s.weightPrice + price * (timestamp - l.now), 0, 0⟩ ∨
        l.live.erase id ≠ ∅ ∧ s.eraseOrderEntry timestamp id =
          ⟨px, l.live.erase id, s.totalTimestamp + (timestamp - l.now),
            s.weightPrice + l.named * (timestamp - l.now), timestamp, price⟩) := by
  have hcarries := h.carries (ne_empty_of_mem hid)
  obtain ⟨price, hprice⟩ := Finmap.mem_iff.mp hid
  refine ⟨price, s.orderPx.filter (· ≠ price), hprice, ?_⟩
  rw [← h.live] at hprice ⊢
  by_cases hrest : s.orderEntry.erase id = ∅
  · exact Or.inl ⟨hrest, by rw [eraseOrderEntry_only timestamp hprice hrest, hcarries.2]⟩
  · refine Or.inr ⟨hrest, ?_⟩
    rw [eraseOrderEntry_other timestamp hprice hrest, hcarries.1, hcarries.2]

theorem step_tracks {s : MarketData} {l : Ledger} {e : Entry} (h : Tracks s l)
    (he : l.ErasesLive e) : Tracks (step s e).1 (l.after e) := by
  cases e with
  | insert timestamp id price =>
      constructor
      · simp only [step, MarketData.insertOrderEntry, Ledger.after, h.live]
      · intro hempty
        exact (insert_ne_empty _ _ _ hempty).elim
      · intro _
        exact ⟨rfl, rfl⟩
  | erase timestamp id =>
      obtain ⟨price, px, hprice, hcases⟩ := eraseOrderEntry_cases timestamp h he
      simp only [step, Ledger.after, hprice]
      cases hcases with
      | inl honly =>
          rw [honly.2]
          exact ⟨rfl, fun _ => rfl, fun hne => (hne honly.1).elim⟩
      | inr hrest =>
          rw [hrest.2]
          exact ⟨rfl, fun hempty => (hrest.1 hempty).elim, fun _ => ⟨rfl, rfl⟩⟩

theorem step_weightPrice {s : MarketData} {l : Ledger} {e : Entry} (h : Tracks s l)
    (he : l.ErasesLive e) :
    (step s e).1.weightPrice = s.weightPrice +
      if l.live = ∅ then 0 else l.carried e * (e.timestamp - l.now) := by
  cases e with
  | insert timestamp id price =>
      simp only [step, MarketData.insertOrderEntry, Entry.timestamp, Ledger.carried]
      by_cases hempty : l.live = ∅
      · rw [if_pos hempty, h.emptied hempty, zero_mul]
      · rw [if_neg hempty, (h.carries hempty).1, (h.carries hempty).2]
  | erase timestamp id =>
      obtain ⟨price, px, hprice, hcases⟩ := eraseOrderEntry_cases timestamp h he
      simp only [step, Entry.timestamp, Ledger.carried, hprice, Option.getD_some]
      rw [if_neg (ne_empty_of_mem he)]
      cases hcases with
      | inl honly => rw [honly.2, if_pos honly.1]
      | inr hrest => rw [hrest.2, if_neg hrest.1]

theorem step_totalTimestamp {s : MarketData} {l : Ledger} {e : Entry} (h : Tracks s l)
    (he : l.ErasesLive e) :
    (step s e).1.totalTimestamp = s.totalTimestamp +
      if l.live = ∅ then 0 else e.timestamp - l.now := by
  cases e with
  | insert timestamp id price =>
      simp only [step, MarketData.insertOrderEntry, Entry.timestamp, h.live]
      by_cases hempty : l.live = ∅
      · rw [if_neg (not_not.mpr hempty), if_pos hempty, add_zero]
      · rw [if_pos hempty, if_neg hempty, (h.carries hempty).2]
  | erase timestamp id =>
      obtain ⟨price, px, hprice, hcases⟩ := eraseOrderEntry_cases timestamp h he
      simp only [step, Entry.timestamp]
      rw [if_neg (ne_empty_of_mem he)]
      cases hcases with
      | inl honly => rw [honly.2]
      | inr hrest => rw [hrest.2]

/-! ### The average of a log -/

/-- The interval that `e` ends is weighted by its highest price: no order is live in it, it has no
length, `e` erases the only order, or the order the last entry named has the highest live price. -/
def CarriesHighest (l : Ledger) (e : Entry) : Prop :=
  l.live = ∅ ∨ e.timestamp = l.now ∨ l.ErasesOnly e ∨ l.named = highest l.live

instance (l : Ledger) (e : Entry) : Decidable (CarriesHighest l e) :=
  inferInstanceAs (Decidable (_ ∨ _ ∨ _ ∨ _))

theorem carriesHighest_iff {l : Ledger} {e : Entry} (he : l.Admits e) :
    CarriesHighest l e ↔
      (if l.live = ∅ then 0 else l.carried e * (e.timestamp - l.now)) =
        if l.live = ∅ then 0 else highest l.live * ((e.timestamp - l.now : ℤ) : ℚ) := by
  unfold CarriesHighest
  by_cases hempty : l.live = ∅
  · simp [hempty]
  · have hlength : ((e.timestamp : ℚ) - l.now = 0) ↔ e.timestamp = l.now := by
      rw [sub_eq_zero, Int.cast_inj]
    rw [if_neg hempty, if_neg hempty, Int.cast_sub, mul_eq_mul_right_iff, hlength]
    cases e with
    | insert timestamp id price => simp [hempty, Ledger.ErasesOnly, Ledger.carried, or_comm]
    | erase timestamp id =>
        have ⟨price, hprice⟩ := Finmap.mem_iff.mp he
        by_cases hrest : l.live.erase id = ∅
        · simp [hrest, Ledger.ErasesOnly, Ledger.carried, hprice, highest_of_only hprice hrest]
        · simp [hempty, hrest, Ledger.ErasesOnly, Ledger.carried, or_comm]

theorem weightedLength_filter_cons (i : Interval) (is : List Interval) :
    weightedLength ((i :: is).filter (·.live ≠ ∅)) =
      (if i.live = ∅ then 0 else highest i.live * i.length) +
        weightedLength (is.filter (·.live ≠ ∅)) := by
  by_cases h : i.live = ∅ <;> simp [weightedLength, h]

theorem totalLength_filter_cons (i : Interval) (is : List Interval) :
    totalLength ((i :: is).filter (·.live ≠ ∅)) =
      (if i.live = ∅ then 0 else i.length) + totalLength (is.filter (·.live ≠ ∅)) := by
  by_cases h : i.live = ∅ <;> simp [totalLength, h]

theorem run_totalTimestamp {s : MarketData} {l : Ledger} {log : List Entry} (h : Tracks s l)
    (hlog : Along Ledger.step Ledger.ErasesLive l log) :
    (run step s log).totalTimestamp =
      s.totalTimestamp + totalLength ((trace Ledger.step l log).filter (·.live ≠ ∅)) := by
  induction log generalizing s l with
  | nil => simp [run, totalLength]
  | cons e log ih =>
      rw [run_cons, ih (step_tracks h hlog.1) hlog.2, step_totalTimestamp h hlog.1, trace_cons,
        totalLength_filter_cons, add_assoc]
      rfl

theorem totalTimestamp_eq {log : List Entry} (hlog : Along Ledger.step Ledger.ErasesLive .new log) :
    (run step .new log).totalTimestamp = totalLength (intervals log) :=
  (run_totalTimestamp tracks_new hlog).trans (zero_add _)

/-- The sums agree after every prefix when each entry adds the right weight. -/
theorem run_weightPrice_iff {s : MarketData} {l : Ledger} {log : List Entry} (h : Tracks s l)
    (hlog : Along Ledger.step Ledger.Admits l log) :
    (∀ k, (run step s (log.take k)).weightPrice =
        s.weightPrice + weightedLength ((trace Ledger.step l (log.take k)).filter (·.live ≠ ∅))) ↔
      Along Ledger.step CarriesHighest l log := by
  refine forall_take_iff_along_of
    (fun s l log => Tracks s l ∧ Along Ledger.step Ledger.Admits l log)
    (fun s l read => (run step s read).weightPrice =
      s.weightPrice + weightedLength ((trace Ledger.step l read).filter (·.live ≠ ∅)))
    (fun s _ e => (step s e).1) ?_ ?_ ?_ (a := s) ⟨h, hlog⟩
  · intro s l _ _
    simp [run, weightedLength]
  · intro s l e _ h
    have hweight := step_weightPrice h.1 h.2.1.erasesLive
    rw [carriesHighest_iff h.2.1, trace_cons, weightedLength_filter_cons, run_cons, run, hweight,
      add_right_inj]
    simp [weightedLength, Ledger.step]
  · intro s l e _ h hcarried
    have hweight := step_weightPrice h.1 h.2.1.erasesLive
    rw [(carriesHighest_iff h.2.1).mp hcarried] at hweight
    refine ⟨⟨step_tracks h.1 h.2.1.erasesLive, h.2.2⟩, fun read => ?_⟩
    rw [trace_cons, weightedLength_filter_cons, run_cons, hweight, add_assoc]
    rfl

/-- For every log whose erases name live orders, whatever ids it inserts under and whatever its
times are: the time the book has measured is the sum of the lengths of the intervals in which some
order was live, however often it was empty in between. -/
theorem measured_time_is_live_time (log : List Entry)
    (hlog : Along Ledger.step Ledger.ErasesLive .new log) :
    (run step .new log).totalTimestamp = totalLength (intervals log) :=
  totalTimestamp_eq hlog

/-- The book is empty from 2500 to 4000, and one order is replaced by another of its id. -/
theorem measured_time_of_refilled_book :
    (run step .new [.insert 1000 100 10, .insert 2000 100 13, .erase 2500 100, .insert 4000 101 12,
      .erase 4500 101]).totalTimestamp = 2000 := by
  have hlog : Along Ledger.step Ledger.ErasesLive .new [.insert 1000 100 10, .insert 2000 100 13,
      .erase 2500 100, .insert 4000 101 12, .erase 4500 101] := by
    simp only [Along]
    decide +kernel
  rw [measured_time_is_live_time _ hlog]
  decide +kernel

/-- For every log that inserts under free ids and erases under live ones, whatever its times and
prices are: the weight and the printed price are right after each of its prefixes exactly when
every interval with live orders is weighted by the highest of their prices. -/
theorem weighted_average_iff (log : List Entry) (hlog : Along Ledger.step Ledger.Admits .new log) :
    (∀ k, let s := run step .new (log.take k)
        let is := intervals (log.take k)
        s.weightPrice = weightedLength is ∧
          (0 < totalLength is → s.printWeightedPx = weightedLength is / totalLength is)) ↔
      Along Ledger.step CarriesHighest .new log := by
  have hiff := run_weightPrice_iff tracks_new hlog
  rw [← hiff]
  constructor
  · intro h k
    rw [(h k).1]
    exact (zero_add _).symm
  · intro h k
    have hweight :
        (run step .new (log.take k)).weightPrice = weightedLength (intervals (log.take k)) :=
      (h k).trans (zero_add _)
    have htotal :
        (run step .new (log.take k)).totalTimestamp = totalLength (intervals (log.take k)) :=
      totalTimestamp_eq ((hlog.mono fun _ _ => Ledger.Admits.erasesLive).take k)
    refine ⟨hweight, ?_⟩
    intro _
    rw [MarketData.printWeightedPx, hweight, htotal]

/-- The log that comes with the program has a wrong carried price in its last interval only, and
there its last entry erases the only order. -/
theorem weighted_average_sample :
    let log : List Entry := [.insert 1000 100 10, .insert 2000 101 13, .insert 2200 102 13,
      .erase 2400 101, .erase 2500 102, .erase 4000 100]
    (run step .new log).printWeightedPx =
      weightedLength (intervals log) / totalLength (intervals log) := by
  intro log
  have hlog : Along Ledger.step Ledger.Admits .new log := by
    simp only [log, Along]
    decide +kernel
  have hcarries : Along Ledger.step CarriesHighest .new log := by
    simp only [log, Along]
    decide +kernel
  exact ((weighted_average_iff log hlog).mpr hcarries 6).2 (by decide +kernel)

/-- A second order that is cheaper than the first: its price is carried into the time in which the
first is still the highest. -/
theorem cheaper_order_lowers_average :
    let log : List Entry := [.insert 0 100 10, .insert 1000 101 5, .erase 2000 101, .erase 3000 100]
    (log.map Entry.timestamp).Pairwise (· ≤ ·) ∧ Along Ledger.step Ledger.Admits .new log ∧
      0 < totalLength (intervals log) ∧
      (run step .new log).weightPrice = 25000 ∧ weightedLength (intervals log) = 30000 := by
  intro log
  simp only [log, Along]
  decide +kernel

end ForexSuite.OrderBook
