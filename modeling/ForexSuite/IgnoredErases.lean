import ForexSuite.OrderBookAverage

/-!
# Erases that name no live order

An erase of an id that is not live leaves the orders alone, but its timestamp is
counted and the price carried to the next entry is replaced by zero. A log and the
log without these entries are run side by side here; the two books agree after every
prefix exactly when none of these changes can be seen.
-/
namespace ForexSuite.OrderBook

open EventMachine

/-- The log without the erases that name no live order. -/
def withoutIgnored (l : Ledger) : List Entry → List Entry
  | [] => []
  | e :: log => if l.ErasesLive e then e :: withoutIgnored (l.after e) log else withoutIgnored l log

/-- The weight, the time and the orders of two books. -/
def SameTotals (s s' : MarketData) : Prop :=
  s.weightPrice = s'.weightPrice ∧ s.totalTimestamp = s'.totalTimestamp ∧
    s.orderEntry = s'.orderEntry

instance (s s' : MarketData) : Decidable (SameTotals s s') :=
  inferInstanceAs (Decidable (_ ∧ _ ∧ _))

/-- The ledger of the entries that are not ignored, and whether one has been ignored since the
last of them. -/
structure Recent where
  ledger : Ledger
  ignored : Bool

namespace Recent

def new : Recent := ⟨.new, false⟩

def after (r : Recent) (e : Entry) : Recent :=
  if r.ledger.ErasesLive e then ⟨r.ledger.after e, false⟩ else ⟨r.ledger, true⟩

def step (r : Recent) (e : Entry) : Recent × Unit := (r.after e, ())

/-- An entry that is ignored comes at time zero if the book is empty, and at the time of the last
other entry if it is not. An entry that follows an ignored one finds the book empty, comes at the
time of the last other entry, has a price of zero carried to it or erases the only order. -/
def Harmless (r : Recent) (e : Entry) : Prop :=
  if r.ledger.ErasesLive e then
    r.ignored = false ∨ r.ledger.live = ∅ ∨ e.timestamp = r.ledger.now ∨ r.ledger.named = 0 ∨
      r.ledger.ErasesOnly e
  else e.timestamp = if r.ledger.live = ∅ then 0 else r.ledger.now

end Recent

/-- The book of the whole log beside the book of the log without the ignored entries. -/
structure Follows (s s' : MarketData) (r : Recent) : Prop where
  tracks : Tracks s' r.ledger
  reset : r.ledger.live = ∅ → s'.prevTimestamp = 0
  totals : SameTotals s s'
  time : s.prevTimestamp = s'.prevTimestamp
  price : s.prevPrice = if r.ignored = true then 0 else s'.prevPrice

theorem follows_new : Follows .new .new .new :=
  ⟨tracks_new, fun _ => rfl, ⟨rfl, rfl, rfl⟩, rfl, rfl⟩

variable {s s' : MarketData} {r : Recent} {e : Entry}

theorem follows_ignored (h : Follows s s' r) (he : ¬ r.ledger.ErasesLive e) :
    (SameTotals (step s e).1 s' ↔ r.Harmless e) ∧
      (r.Harmless e → Follows (step s e).1 s' (r.after e)) := by
  cases e with
  | insert timestamp id price => exact (he trivial).elim
  | erase timestamp id =>
      obtain ⟨htracks, hreset, ⟨hweight, htotal, hlive⟩, htime, hprice⟩ := h
      have hid : id ∉ s.orderEntry := by
        rw [hlive, htracks.live]
        exact he
      have hl : s.orderEntry = r.ledger.live := hlive.trans htracks.live
      simp only [Recent.Harmless, Recent.after, if_neg he, step,
        eraseOrderEntry_unknown timestamp hid, Entry.timestamp]
      by_cases hempty : r.ledger.live = ∅
      · have hprev : s.prevTimestamp = 0 := htime.trans (hreset hempty)
        rw [if_pos (hl.trans hempty), if_pos hempty]
        have hiff : s.totalTimestamp + (timestamp - s.prevTimestamp) = s'.totalTimestamp ↔
            timestamp = 0 := by
          rw [htotal, hprev, sub_zero, add_eq_left]
        refine ⟨⟨fun hsame => hiff.mp hsame.2.1, fun ht => ⟨hweight, hiff.mpr ht, hlive⟩⟩, ?_⟩
        intro ht
        exact ⟨htracks, hreset, ⟨hweight, hiff.mpr ht, hlive⟩, (hreset hempty).symm, rfl⟩
      · have hprev : s.prevTimestamp = r.ledger.now := htime.trans (htracks.carries hempty).2
        rw [if_neg (fun h => hempty (hl.symm.trans h)), if_neg hempty]
        have hiff : s.totalTimestamp + (timestamp - s.prevTimestamp) = s'.totalTimestamp ↔
            timestamp = r.ledger.now := by
          rw [htotal, hprev, add_eq_left, sub_eq_zero]
        -- at the time of the last entry the interval has no length, and no weight is added
        have hzero (ht : timestamp = r.ledger.now) :
            s.weightPrice + s.prevPrice * ((timestamp : ℚ) - s.prevTimestamp) = s'.weightPrice := by
          rw [hprev, ht, sub_self, mul_zero, add_zero, hweight]
        refine ⟨⟨fun hsame => hiff.mp hsame.2.1, fun ht => ⟨hzero ht, hiff.mpr ht, hlive⟩⟩, ?_⟩
        intro ht
        exact ⟨htracks, hreset, ⟨hzero ht, hiff.mpr ht, hlive⟩,
          ht.trans (htracks.carries hempty).2.symm, rfl⟩

/-- The price carried to an entry gives the same weight in both books. -/
theorem carried_iff (h : Follows s s' r) (timestamp : ℤ) :
    s.weightPrice + s.prevPrice * ((timestamp : ℚ) - s.prevTimestamp) =
        s'.weightPrice + s'.prevPrice * ((timestamp : ℚ) - s'.prevTimestamp) ↔
      r.ignored = false ∨ r.ledger.live = ∅ ∨ timestamp = r.ledger.now ∨ r.ledger.named = 0 := by
  rw [h.totals.1, h.time, h.price, add_right_inj]
  cases hignored : r.ignored with
  | false => simp
  | true =>
      by_cases hempty : r.ledger.live = ∅
      · simp [hempty, h.tracks.emptied hempty]
      · obtain ⟨hnamed, hnow⟩ := h.tracks.carries hempty
        have hlength : ((timestamp : ℚ) - r.ledger.now = 0) ↔ timestamp = r.ledger.now := by
          rw [sub_eq_zero, Int.cast_inj]
        rw [if_pos rfl, zero_mul, eq_comm, mul_eq_zero, hnamed, hnow, hlength]
        simp [hempty, or_comm]

/-- An entry that is not ignored does to the time, the orders and the carried price what it does
in the other book. -/
theorem step_kept (h : Follows s s' r) (he : r.ledger.ErasesLive e) :
    (step s e).1.totalTimestamp = (step s' e).1.totalTimestamp ∧
      (step s e).1.orderEntry = (step s' e).1.orderEntry ∧
      (step s e).1.prevTimestamp = (step s' e).1.prevTimestamp ∧
      (step s e).1.prevPrice = (step s' e).1.prevPrice ∧
      ((step s' e).1.orderEntry = ∅ → (step s' e).1.prevTimestamp = 0) := by
  obtain ⟨htracks, -, ⟨-, htotal, hlive⟩, htime, -⟩ := h
  cases e with
  | insert timestamp id price =>
      simp only [step, MarketData.insertOrderEntry, htotal, hlive, htime, true_and]
      intro hempty
      exact (insert_ne_empty _ _ _ hempty).elim
  | erase timestamp id =>
      obtain ⟨price, hprice⟩ := Finmap.mem_iff.mp he
      rw [← htracks.live] at hprice
      by_cases hrest : s'.orderEntry.erase id = ∅
      · simp only [step, eraseOrderEntry_only timestamp hprice hrest,
          eraseOrderEntry_only timestamp (hlive ▸ hprice) (hlive ▸ hrest), htotal, hlive, htime]
        simp
      · simp only [step, eraseOrderEntry_other timestamp hprice hrest,
          eraseOrderEntry_other timestamp (hlive ▸ hprice) (hlive ▸ hrest), htotal, hlive, htime]
        simp [hrest]

theorem weightPrice_kept_iff (h : Follows s s' r) (he : r.ledger.ErasesLive e) :
    (step s e).1.weightPrice = (step s' e).1.weightPrice ↔ r.Harmless e := by
  have hcarried := carried_iff h e.timestamp
  rw [Recent.Harmless, if_pos he]
  cases e with
  | insert timestamp id price =>
      simp only [step, MarketData.insertOrderEntry, Ledger.ErasesOnly, or_false]
      exact hcarried
  | erase timestamp id =>
      obtain ⟨price, hprice⟩ := Finmap.mem_iff.mp he
      rw [← h.tracks.live] at hprice
      simp only [Ledger.ErasesOnly, ← h.tracks.live]
      rw [← h.tracks.live] at hcarried
      by_cases hrest : s'.orderEntry.erase id = ∅
      · -- the order that leaves has its own price, whatever was carried
        simp only [step, eraseOrderEntry_only timestamp hprice hrest,
          eraseOrderEntry_only timestamp (h.totals.2.2 ▸ hprice) (h.totals.2.2 ▸ hrest),
          h.totals.1, h.time, hrest]
        simp
      · simp only [step, eraseOrderEntry_other timestamp hprice hrest,
          eraseOrderEntry_other timestamp (h.totals.2.2 ▸ hprice) (h.totals.2.2 ▸ hrest), hrest,
          or_false]
        exact hcarried

theorem follows_kept (h : Follows s s' r) (he : r.ledger.ErasesLive e) :
    (SameTotals (step s e).1 (step s' e).1 ↔ r.Harmless e) ∧
      (r.Harmless e → Follows (step s e).1 (step s' e).1 (r.after e)) := by
  have hweight := weightPrice_kept_iff h he
  have htracks := step_tracks h.tracks he
  obtain ⟨htotal, hlive, htime, hprice, hreset⟩ := step_kept h he
  have hiff : SameTotals (step s e).1 (step s' e).1 ↔ r.Harmless e :=
    ⟨fun hsame => hweight.mp hsame.1, fun hr => ⟨hweight.mpr hr, htotal, hlive⟩⟩
  refine ⟨hiff, ?_⟩
  intro hr
  rw [Recent.after, if_pos he]
  refine ⟨htracks, ?_, hiff.mpr hr, htime, hprice⟩
  intro hempty
  exact hreset (htracks.live.trans hempty)

/-- The book that does not see the ignored entries. -/
def bookAfter (s' : MarketData) (r : Recent) (e : Entry) : MarketData :=
  if r.ledger.ErasesLive e then (step s' e).1 else s'

theorem follows_step (e : Entry) (h : Follows s s' r) :
    (SameTotals (step s e).1 (bookAfter s' r e) ↔ r.Harmless e) ∧
      (r.Harmless e → Follows (step s e).1 (bookAfter s' r e) (r.after e)) := by
  unfold bookAfter
  split_ifs with he
  · exact follows_kept h he
  · exact follows_ignored h he

theorem run_withoutIgnored_cons (s' : MarketData) (r : Recent) (e : Entry) (log : List Entry) :
    run step s' (withoutIgnored r.ledger (e :: log)) =
      run step (bookAfter s' r e) (withoutIgnored (r.after e).ledger log) := by
  rw [withoutIgnored, bookAfter, Recent.after]
  split_ifs <;> rfl

/-- The two books go side by side through the log. -/
theorem run_same_iff (log : List Entry) (h : Follows s s' r) :
    (∀ k, SameTotals (run step s (log.take k))
        (run step s' (withoutIgnored r.ledger (log.take k)))) ↔
      Along Recent.step Recent.Harmless r log := by
  refine forall_take_iff_along_of
    (fun (books : MarketData × MarketData) r _ => Follows books.1 books.2 r)
    (fun books r read => SameTotals (run step books.1 read)
      (run step books.2 (withoutIgnored r.ledger read)))
    (fun books r e => ((step books.1 e).1, bookAfter books.2 r e)) ?_ ?_ ?_ (a := (s, s')) h
  · intro books r _ h
    exact h.totals
  · intro books r e _ h
    rw [run_withoutIgnored_cons]
    exact (follows_step e h).1
  · intro books r e _ h hr
    refine ⟨(follows_step e h).2 hr, fun read => ?_⟩
    rw [run_withoutIgnored_cons]
    rfl

/-- For every log, whatever its ids and times are: after each of its prefixes the book has the
weight, the time and the orders of the book that has not seen the erases of unknown ids, exactly if
each entry is harmless at its place. -/
theorem ignored_erases_are_harmless_iff (log : List Entry) :
    (∀ k, SameTotals (run step .new (log.take k))
        (run step .new (withoutIgnored .new (log.take k)))) ↔
      Along Recent.step Recent.Harmless .new log :=
  run_same_iff log follows_new

/-- An unknown id is erased at 5, between an insert at 0 and an erase at 10, and in an empty
book. -/
theorem ignored_erase_is_counted :
    let log : List Entry := [.insert 0 100 10, .insert 0 101 10, .erase 5 7, .erase 10 100]
    let inEmpty : List Entry := [.erase 5 7]
    (∀ l ∈ [log, inEmpty], (l.map Entry.timestamp).Pairwise (· ≤ ·)) ∧
      (run step .new log).weightPrice = 50 ∧
      (run step .new (withoutIgnored .new log)).weightPrice = 100 ∧
      (run step .new inEmpty).totalTimestamp = 5 ∧
      (run step .new (withoutIgnored .new inEmpty)).totalTimestamp = 0 := by
  intro log inEmpty
  decide +kernel

end ForexSuite.OrderBook
