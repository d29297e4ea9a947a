import ForexSuite.SnapshotDecoders

/-!
# The prices the decoders report

Both decoders report a bid and an offer for every snapshot they can read. For each
decoder the results here say for which snapshots these are prices the message gives
for that side, and what the two have in common: where every entry is complete and
both sides have one, they report the last price of each side.
-/
namespace ForexSuite.SnapshotDecoders

open TextNumbers (Text)
open PriceServer (Str ascii Price SessionID Application Conversions FixMessage MTTickShort)

/-- Bitstamp: the price of the last entry that counts as one of the side, its own or the last one
before it, is carried by an entry of that side. -/
def TakesOwn (side : Char) (entries : List EntryGroup) : Prop :=
  ∃ upTo, upToLast side entries = some upTo ∧
    ∃ p ∈ pricesOf side entries, lastSet EntryGroup.mdEntryPx upTo = some p

/-- The Bitstamp client can read the message. -/
def Snapshot.ReadByClient (message : Snapshot) : Prop :=
  message.Counts ∧
    ∀ before g rest, message.counted = before ++ g :: rest → ReadableWithRest (before ++ [g])

/-- The spread engine can read the message. -/
def Snapshot.ReadByEngine (message : Snapshot) : Prop :=
  (∃ symbol, message.symbol = some symbol) ∧ message.Counts ∧ ∀ g ∈ message.counted, g.Readable

/-- An entry of the side counts as one. -/
theorem upToLast_of_mem {side : Char} {entries : List EntryGroup} {px : Option (Option Price)}
    (h : ⟨some (some side), px⟩ ∈ entries) : ∃ upTo, upToLast side entries = some upTo := by
  induction entries using List.reverseRecOn with
  | nil => cases h
  | append_singleton entries g ih =>
      rw [upToLast_append]
      split_ifs with hlast
      · exact ⟨_, rfl⟩
      · rcases List.mem_append.mp h with hmem | hmem
        · exact ih hmem
        · rw [List.mem_singleton] at hmem
          rw [lastSet_append, ← hmem] at hlast
          exact (hlast rfl).elim

theorem lastSet_upToLast {side : Char} {entries upTo : List EntryGroup}
    (h : upToLast side entries = some upTo) :
    lastSet EntryGroup.mdEntryType upTo = some side ∧
      ∃ before g rest, upTo = before ++ [g] ∧ entries = before ++ g :: rest := by
  induction entries using List.reverseRecOn with
  | nil => cases h
  | append_singleton entries g ih =>
      rw [upToLast_append] at h
      split_ifs at h with hlast
      · cases h
        exact ⟨hlast, entries, g, [], rfl, rfl⟩
      · obtain ⟨htype, before, g', rest, hupTo, hsplit⟩ := ih h
        exact ⟨htype, before, g', rest ++ [g], hupTo, by rw [hsplit]; simp⟩

/-- In a message the client can read, the price it has for a side is an own one exactly if the
entry it was taken with has one; the initial zero is none. -/
theorem takenPrice_own_iff {side : Char} {entries : List EntryGroup}
    (hside : side = mdEntryTypeBid ∨ side = mdEntryTypeOffer)
    (hread : ∀ before g rest, entries = before ++ g :: rest → ReadableWithRest (before ++ [g])) :
    (∃ p ∈ pricesOf side entries, some ((takenPrice side entries).getD 0) = some p) ↔
      TakesOwn side entries := by
  unfold TakesOwn takenPrice
  cases hupTo : upToLast side entries with
  | none =>
      constructor
      · rintro ⟨p, hp, -⟩
        obtain ⟨upTo, h⟩ := upToLast_of_mem (mem_pricesOf.mp hp)
        rw [hupTo] at h
        cases h
      · rintro ⟨upTo, h, -⟩
        cases h
  | some upTo =>
      obtain ⟨htype, before, g, rest, rfl, hsplit⟩ := lastSet_upToLast hupTo
      obtain ⟨type, htype', hpx⟩ := hread before g rest hsplit
      rw [htype] at htype'
      cases htype'
      obtain ⟨p, hp⟩ := Option.isSome_iff_exists.mp (hpx hside)
      simp [hp]

theorem getLast?_own_iff {side : Char} {entries : List EntryGroup} :
    (∃ p ∈ pricesOf side entries, (pricesOf side entries).getLast? = some p) ↔
      pricesOf side entries ≠ [] := by
  constructor
  · rintro ⟨p, hp, -⟩ hnil
    rw [hnil] at hp
    cases hp
  · intro hne
    exact ⟨_, List.getLast_mem hne, List.getLast?_eq_some_getLast hne⟩

/-- For every snapshot, with any entries in any order and any of their fields missing: the Bitstamp
client throws or reports prices of the message's own entries exactly if it cannot read the message
or takes an own price for both sides; the spread engine, exactly if it cannot read the message or
there are a bid and an offer. -/
theorem reports_own_prices_iff (message : Snapshot) (sessionID : SessionID) :
    ((∀ t, processMDSnapshotFullRefresh message = .ok t →
        OwnPrices message (some t.bidPx) (some t.offerPx)) ↔
      (message.ReadByClient →
        TakesOwn mdEntryTypeBid message.counted ∧ TakesOwn mdEntryTypeOffer message.counted)) ∧
    ((∀ line, onMessage message sessionID = .ok line →
        OwnPrices message line.price.bidpx line.price.offerpx) ↔
      (message.ReadByEngine →
        pricesOf mdEntryTypeBid message.counted ≠ [] ∧
          pricesOf mdEntryTypeOffer message.counted ≠ [])) := by
  constructor
  · simp only [processMDSnapshotFullRefresh_eq_ok_iff, and_imp, forall_comm (α := Tick)]
    constructor
    · intro h hread
      have hown := h hread.1 hread.2 _ rfl
      exact ⟨(takenPrice_own_iff (Or.inl rfl) hread.2).mp hown.1,
        (takenPrice_own_iff (Or.inr rfl) hread.2).mp hown.2⟩
    · rintro h hcount hread t rfl
      obtain ⟨hbid, hoffer⟩ := h ⟨hcount, hread⟩
      exact ⟨(takenPrice_own_iff (Or.inl rfl) hread).mpr hbid,
        (takenPrice_own_iff (Or.inr rfl) hread).mpr hoffer⟩
  · constructor
    · intro h hread
      obtain ⟨⟨symbol, hsymbol⟩, hcount, hall⟩ := hread
      let price := Px.after symbol message.counted
      have hline :
          onMessage message sessionID = .ok ⟨price, price.spread, sessionID.senderCompID⟩ :=
        onMessage_eq_ok_iff.mpr ⟨⟨⟨symbol, hsymbol, rfl⟩, hcount, hall⟩, rfl, rfl⟩
      have hown := h _ hline
      exact ⟨getLast?_own_iff.mp hown.1, getLast?_own_iff.mp hown.2⟩
    · intro h line hline
      obtain ⟨⟨⟨symbol, hsymbol, hprice⟩, hread⟩, -, -⟩ := onMessage_eq_ok_iff.mp hline
      obtain ⟨hbid, hoffer⟩ := h ⟨⟨symbol, hsymbol⟩, hread⟩
      rw [hprice]
      exact ⟨getLast?_own_iff.mpr hbid, getLast?_own_iff.mpr hoffer⟩

/-- An entry with its two fields. -/
def entry (side : Char) (px : Price) : EntryGroup := ⟨some (some side), some (some px)⟩

/-- With a bid only, the client reports an offer of zero and the engine an unassigned one; an
offer without a price gets that of the bid before it. -/
theorem foreign_prices_are_reported :
    let bidOnly : Snapshot := ⟨some [], some (some 1), [entry mdEntryTypeBid 13]⟩
    let noOfferPx : Snapshot :=
      ⟨some [], some (some 2), [entry mdEntryTypeBid 13, ⟨some (some mdEntryTypeOffer), none⟩]⟩
    (∃ t, processMDSnapshotFullRefresh bidOnly = .ok t ∧ t.offerPx = 0 ∧
      ¬ OwnPrices bidOnly (some t.bidPx) (some t.offerPx)) ∧
    (∃ line, onMessage bidOnly default = .ok line ∧ line.price.offerpx = none ∧
      ¬ OwnPrices bidOnly line.price.bidpx line.price.offerpx) ∧
    ∃ t, processMDSnapshotFullRefresh noOfferPx = .ok t ∧ t.offerPx = 13 ∧
      ¬ OwnPrices noOfferPx (some t.bidPx) (some t.offerPx) := by
  intro bidOnly noOfferPx
  have hbidOnly : pricesOf mdEntryTypeOffer bidOnly.counted = [] := by decide
  have hnoOfferPx : pricesOf mdEntryTypeOffer noOfferPx.counted = [] := by decide
  refine ⟨⟨_, rfl, rfl, ?_⟩, ⟨_, rfl, rfl, ?_⟩, _, rfl, rfl, ?_⟩
  · simp [OwnPrices, hbidOnly]
  · simp [OwnPrices, hbidOnly]
  · simp [OwnPrices, hnoOfferPx]

/-! ### What the two have in common -/

/-- Every entry carries both fields. -/
def Complete (entries : List EntryGroup) : Prop := ∀ g ∈ entries, ∃ type px, g = entry type px

/-- NoMDEntries is the number of groups. -/
def Snapshot.CountsAll (message : Snapshot) : Prop :=
  message.noMDEntries = some (some (message.groups.length : ℤ))

theorem complete_nil : Complete [] := by
  intro g hg
  cases hg

theorem Complete.cons {entries : List EntryGroup} (type : Char) (px : Price)
    (h : Complete entries) : Complete (entry type px :: entries) := by
  intro g hg
  rcases List.mem_cons.mp hg with rfl | hg
  · exact ⟨type, px, rfl⟩
  · exact h g hg

/-- The message as it arrives. `addGroup` counts the groups. -/
def received : FixMessage → Option Snapshot
  | .marketDataSnapshotFullRefresh _ symbol entries =>
      some ⟨some symbol, some (some entries.length),
        entries.map fun e => entry e.mdEntryType e.mdEntryPx⟩
  | .marketDataRequestReject _ _ => none

theorem takenPrice_of_complete {entries : List EntryGroup} (h : Complete entries) (side : Char) :
    takenPrice side entries = (pricesOf side entries).getLast? := by
  induction entries using List.reverseRecOn with
  | nil => rfl
  | append_singleton entries g ih =>
      obtain ⟨type, px, rfl⟩ := h g (by simp)
      have hrest : Complete entries := fun g hg => h g (List.mem_append_left _ hg)
      have hprices : pricesOf side (entries ++ [entry type px]) =
          pricesOf side entries ++ if type = side then [px] else [] := by
        rw [pricesOf, List.filterMap_append]
        congr 1
        by_cases hside : type = side <;> simp [entry, hside]
      rw [takenPrice_append, lastSet_append, lastSet_append, hprices, ih hrest]
      by_cases hside : type = side <;> simp [entry, getFieldIfSet, hside]

theorem Complete.readable {entries : List EntryGroup} (h : Complete entries) :
    (∀ g ∈ entries, g.Readable) ∧
      ∀ before g rest, entries = before ++ g :: rest → ReadableWithRest (before ++ [g]) := by
  constructor
  · intro g hg
    obtain ⟨type, px, rfl⟩ := h g hg
    exact ⟨type, some px, rfl, rfl, fun _ => rfl⟩
  · rintro before g rest rfl
    obtain ⟨type, px, rfl⟩ := h g (by simp)
    exact ⟨type, lastSet_append _ _ _, fun _ => by rw [lastSet_append]; rfl⟩

/-- The tick and the line for a symbol, a bid and an offer. -/
def tickOf (symbol : Str) (bid offer : Price) : Tick := ⟨symbol, bid, offer, 0, 0, ascii "bitstamp"⟩

def lineOf (sessionID : SessionID) (symbol : Str) (bid offer : Price) : Line :=
  ⟨⟨symbol, some bid, some offer⟩, some ((offer - bid) * 100000), sessionID.senderCompID⟩

variable {message : Snapshot} {sessionID : SessionID} {symbol : Str} {bid offer : Price}

theorem counted_of_all (hcount : message.CountsAll) :
    message.counted = message.groups ∧ message.Counts := by
  constructor
  · rw [counted_eq hcount, Int.toNat_natCast, List.take_length]
  · exact ⟨_, hcount, le_of_eq (Int.toNat_natCast _)⟩

theorem processMDSnapshotFullRefresh_of_complete
    (hcount : message.CountsAll)
    (hcomplete : Complete message.groups)
    (hbid : (pricesOf mdEntryTypeBid message.groups).getLast? = some bid)
    (hoffer : (pricesOf mdEntryTypeOffer message.groups).getLast? = some offer) :
    processMDSnapshotFullRefresh message = .ok (tickOf (message.symbol.getD []) bid offer) := by
  obtain ⟨hcounted, hcounts⟩ := counted_of_all hcount
  rw [processMDSnapshotFullRefresh_eq_ok_iff, hcounted, takenPrice_of_complete hcomplete,
    takenPrice_of_complete hcomplete, hbid, hoffer]
  exact ⟨⟨hcounts, hcomplete.readable.2⟩, rfl⟩

theorem onMessage_of_complete (hcount : message.CountsAll)
    (hcomplete : Complete message.groups)
    (hbid : (pricesOf mdEntryTypeBid message.groups).getLast? = some bid)
    (hoffer : (pricesOf mdEntryTypeOffer message.groups).getLast? = some offer)
    (hsymbol : message.symbol = some symbol) :
    onMessage message sessionID = .ok (lineOf sessionID symbol bid offer) := by
  obtain ⟨hcounted, hcounts⟩ := counted_of_all hcount
  rw [onMessage_eq_ok_iff, hcounted]
  refine ⟨⟨⟨symbol, hsymbol, ?_⟩, hcounts, hcomplete.readable.1⟩, rfl, rfl⟩
  rw [Px.after, hbid, hoffer]
  rfl

/-- A snapshot whose entries are as many as it says and complete, with a bid and an offer among
them: both decoders report its symbol, its last bid and its last offer. Without a symbol the client
reports an empty one and the engine throws. The snapshot the server sends for a tick of a symbol
that is subscribed gives both the symbol and the prices of the tick. -/
theorem decoders_agree :
    (∀ (message : Snapshot) (sessionID : SessionID) (bid offer : Price),
      message.CountsAll → Complete message.groups →
      (pricesOf mdEntryTypeBid message.groups).getLast? = some bid →
      (pricesOf mdEntryTypeOffer message.groups).getLast? = some offer →
        (∀ symbol, message.symbol = some symbol →
          processMDSnapshotFullRefresh message = .ok (tickOf symbol bid offer) ∧
            onMessage message sessionID = .ok (lineOf sessionID symbol bid offer)) ∧
        (message.symbol = none →
          processMDSnapshotFullRefresh message = .ok (tickOf [] bid offer) ∧
            onMessage message sessionID = .error (.fieldNotFound 55))) ∧
    ∀ (conv : Conversions) (app : Application) (symbol : Text) (tick : MTTickShort) (mdReqID : Str)
      (sessionID : SessionID), app.symMDReqID.lookup (conv.narrow symbol) = some mdReqID →
        ∃ sent message, (app.onTick conv symbol tick).sent = [sent] ∧
          received sent.message = some message ∧
          processMDSnapshotFullRefresh message =
            .ok (tickOf (conv.narrow symbol) tick.bid tick.ask) ∧
          onMessage message sessionID =
            .ok (lineOf sessionID (conv.narrow symbol) tick.bid tick.ask) := by
  constructor
  · intro message sessionID bid offer hcount hcomplete hbid hoffer
    have hclient := processMDSnapshotFullRefresh_of_complete hcount hcomplete hbid hoffer
    constructor
    · intro symbol hsymbol
      rw [hsymbol] at hclient
      exact ⟨hclient, onMessage_of_complete hcount hcomplete hbid hoffer hsymbol⟩
    · intro hnone
      rw [hnone] at hclient
      refine ⟨hclient, ?_⟩
      rw [onMessage, hnone]
      rfl
  · intro conv app symbol tick mdReqID sessionID hsub
    let message : Snapshot := ⟨some (conv.narrow symbol), some (some 2),
      [entry mdEntryTypeBid tick.bid, entry mdEntryTypeOffer tick.ask]⟩
    have hcomplete : Complete message.groups := .cons _ _ (.cons _ _ complete_nil)
    refine ⟨_, message, by rw [Application.onTick_eq, hsub], rfl, ?_, ?_⟩
    · exact processMDSnapshotFullRefresh_of_complete rfl hcomplete rfl rfl
    · exact onMessage_of_complete rfl hcomplete rfl rfl rfl

/-- Three entries, and a tick of the one symbol that is subscribed. -/
theorem decoders_agree_sample :
    let message : Snapshot :=
      ⟨some (ascii "EURUSD"), some (some 3), [entry '0' 13, entry '1' 15, entry '0' 14]⟩
    let app : Application := ⟨Finmap.singleton (ascii "EURUSD") (ascii "1"), ∅, default⟩
    onMessage message default = .ok (lineOf default (ascii "EURUSD") 14 15) ∧
      ∃ sent message,
        (app.onTick PriceServer.asciiConversions "EURUSD".toList ⟨13, 15⟩).sent = [sent] ∧
        received sent.message = some message ∧
        processMDSnapshotFullRefresh message = .ok (tickOf (ascii "EURUSD") 13 15) := by
  intro message app
  have hcomplete : Complete message.groups := .cons _ _ (.cons _ _ (.cons _ _ complete_nil))
  have hagree := decoders_agree.1 message default 14 15 rfl hcomplete rfl rfl
  refine ⟨(hagree.1 _ rfl).2, ?_⟩
  obtain ⟨sent, message, hsent, hreceived, hclient, -⟩ :=
    decoders_agree.2 PriceServer.asciiConversions app "EURUSD".toList ⟨13, 15⟩ (ascii "1")
      default rfl
  exact ⟨sent, message, hsent, hreceived, hclient⟩

/-- A snapshot with a bid and an offer and no symbol. -/
theorem no_symbol_is_read_differently :
    let message : Snapshot := ⟨none, some (some 2), [entry '0' 13, entry '1' 15]⟩
    message.CountsAll ∧ Complete message.groups ∧
      processMDSnapshotFullRefresh message = .ok (tickOf [] 13 15) ∧
      onMessage message default = .error (.fieldNotFound 55) := by
  intro message
  exact ⟨rfl, .cons _ _ (.cons _ _ complete_nil), rfl, rfl⟩

end ForexSuite.SnapshotDecoders
