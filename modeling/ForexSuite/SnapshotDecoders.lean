import ForexSuite.Exceptions
import ForexSuite.PriceServer
import Mathlib.Data.List.Infix

/-!
# The two decoders of a market data snapshot

The Bitstamp client and the spread engine read the entries of a snapshot one after
the other and report a bid and an offer. The Bitstamp client takes a field if it is
set, into objects that outlive the entry; the spread engine asks for every field and
throws where one is missing. Neither of them notes whether it has seen a price for
a side: the client starts from zero, the engine from a member that nobody has
assigned.

A field that is present has a content, which is `none` where its convertor rejects
the text. So has a field object nobody has assigned, because its text is empty.
-/
namespace ForexSuite.SnapshotDecoders

open Exceptions
open PriceServer (Str ascii Price SessionID)

/-- A group of `NoMDEntries`. Each of the fields may be absent. -/
structure EntryGroup where
  mdEntryType : Option (Option Char)
  mdEntryPx : Option (Option Price)
deriving DecidableEq

/-- The fields of a MarketDataSnapshotFullRefresh that a decoder reads. The content of a symbol
is never rejected. -/
structure Snapshot where
  symbol : Option Str
  noMDEntries : Option (Option ℤ)
  groups : List EntryGroup
deriving DecidableEq

inductive DecodeException where
  | fieldNotFound (tag : ℕ)
  | incorrectDataFormat (tag : ℕ)
deriving Repr, DecidableEq

def mdEntryTypeBid : Char := '0'
def mdEntryTypeOffer : Char := '1'

/-- `getFieldIfSet` leaves the object as it is where the field is absent. -/
def getFieldIfSet {α : Type} (object : Option α) (field : Option (Option α)) : Option α :=
  field.getD object

def getValue {α : Type} (tag : ℕ) : Option α → Except DecodeException α
  | some a => .ok a
  | none => .error (.incorrectDataFormat tag)

def get {α : Type} (tag : ℕ) : Option α → Except DecodeException α
  | some a => .ok a
  | none => .error (.fieldNotFound tag)

/-- The loop over the groups with the numbers 1 to `n`. `getGroup` throws when there is none of
a number. -/
def groupLoop {σ : Type} (read : σ → EntryGroup → Except DecodeException σ) :
    ℕ → List EntryGroup → σ → Except DecodeException σ
  | 0, _, s => .ok s
  | _ + 1, [], _ => .error (.fieldNotFound 268)
  | n + 1, g :: groups, s => do
      let s ← read s g
      groupLoop read n groups s

/-! ### The Bitstamp client -/

/-- `Tick` without its timestamp. -/
structure Tick where
  symbol : Str
  bidPx : Price
  offerPx : Price
  bidQty : Price
  offerQty : Price
  source : Str
deriving DecidableEq

/-- The variables of `processMDSnapshotFullRefresh` that an entry changes. -/
structure Locals where
  mdentrytype : Option Char
  mdentrypx : Option Price
  bidpx : Price
  askpx : Price

def Locals.new : Locals := ⟨none, none, 0, 0⟩

def Locals.read (l : Locals) (group : EntryGroup) : Except DecodeException Locals := do
  let l := { l with
    mdentrytype := getFieldIfSet l.mdentrytype group.mdEntryType
    mdentrypx := getFieldIfSet l.mdentrypx group.mdEntryPx }
  let type ← getValue 269 l.mdentrytype
  if type = mdEntryTypeBid then
    let bidpx ← getValue 270 l.mdentrypx
    .ok { l with bidpx := bidpx }
  else if type = mdEntryTypeOffer then
    let askpx ← getValue 270 l.mdentrypx
    .ok { l with askpx := askpx }
  else .ok l

/-- The tick that is handed to `onTick`. -/
def processMDSnapshotFullRefresh (message : Snapshot) : Except DecodeException Tick := do
  let symbol := message.symbol.getD []
  let nomdentries := getFieldIfSet none message.noMDEntries
  let list ← getValue 268 nomdentries
  let l ← groupLoop Locals.read list.toNat message.groups .new
  .ok ⟨symbol, l.bidpx, l.askpx, 0, 0, ascii "bitstamp"⟩

/-! ### The spread engine -/

/-- `px`, a price being `none` as long as the member has not been assigned. -/
structure Px where
  symbol : Str
  bidpx : Option Price
  offerpx : Option Price
deriving DecidableEq

def Px.read (price : Px) (mdgroup : EntryGroup) : Except DecodeException Px := do
  let mdentrytype ← get 269 mdgroup.mdEntryType
  let mdentrypx ← get 270 mdgroup.mdEntryPx
  let type ← getValue 269 mdentrytype
  if type = mdEntryTypeBid then
    let bidpx ← getValue 270 mdentrypx
    .ok { price with bidpx := some bidpx }
  else if type = mdEntryTypeOffer then
    let offerpx ← getValue 270 mdentrypx
    .ok { price with offerpx := some offerpx }
  else .ok price

/-- The difference of the prices in points. -/
def Px.spread (price : Px) : Option Price :=
  price.offerpx.bind fun offer => price.bidpx.map fun bid => (offer - bid) * 100000

/-- The line that is printed. -/
structure Line where
  price : Px
  spread : Option Price
  senderCompID : Str
deriving DecidableEq

def onMessage (message : Snapshot) (sessionID : SessionID) : Except DecodeException Line := do
  let sym ← get 55 message.symbol
  let mdentries ← get 268 message.noMDEntries
  let list ← getValue 268 mdentries
  let price ← groupLoop Px.read list.toNat message.groups ⟨sym, none, none⟩
  .ok ⟨price, price.spread, sessionID.senderCompID⟩

/-! ### What the entries say -/

/-- The entries of the message: as many of its groups as NoMDEntries says. -/
def Snapshot.counted (message : Snapshot) : List EntryGroup :=
  match message.noMDEntries with
  | some (some list) => message.groups.take list.toNat
  | _ => []

/-- NoMDEntries is there and is a number, and there are enough groups. -/
def Snapshot.Counts (message : Snapshot) : Prop :=
  ∃ list, message.noMDEntries = some (some list) ∧ list.toNat ≤ message.groups.length

/-- The prices that the entries of a side carry. -/
def pricesOf (side : Char) (entries : List EntryGroup) : List Price :=
  entries.filterMap fun g => if g.mdEntryType = some (some side) then g.mdEntryPx.join else none

/-- The content of a field in the last of the entries that carry it. -/
def lastSet {α : Type} (field : EntryGroup → Option (Option α)) (entries : List EntryGroup) :
    Option α :=
  (entries.filterMap field).getLast?.join

/-- The entries up to the last one that counts as one of the side, an entry without a type having
the type of the entries before it. -/
def upToLast (side : Char) (entries : List EntryGroup) : Option (List EntryGroup) :=
  (entries.inits.tail.filter fun upTo => lastSet EntryGroup.mdEntryType upTo = some side).getLast?

/-- The bid is the price of a BID entry of the message, and the offer that of an OFFER entry. -/
def OwnPrices (message : Snapshot) (bid offer : Option Price) : Prop :=
  (∃ p ∈ pricesOf mdEntryTypeBid message.counted, bid = some p) ∧
    ∃ p ∈ pricesOf mdEntryTypeOffer message.counted, offer = some p

theorem groupLoop_eq_ok_iff {σ : Type} {read : σ → EntryGroup → Except DecodeException σ} {n : ℕ}
    {groups : List EntryGroup} {s s' : σ} :
    groupLoop read n groups s = .ok s' ↔
      n ≤ groups.length ∧ (groups.take n).foldlM read s = .ok s' := by
  induction n generalizing groups s with
  | zero => simp [groupLoop]
  | succ n ih =>
      cases groups with
      | nil => simp [groupLoop]
      | cons g groups =>
          rw [groupLoop, List.take_succ_cons, List.foldlM_cons]
          simp only [bind_eq_ok_iff, ih, List.length_cons, Nat.add_le_add_iff_right]
          constructor
          · rintro ⟨t, ht, hn, hrest⟩
            exact ⟨hn, t, ht, hrest⟩
          · rintro ⟨hn, t, ht, hrest⟩
            exact ⟨t, ht, hn, hrest⟩

theorem mem_pricesOf {side : Char} {entries : List EntryGroup} {p : Price} :
    p ∈ pricesOf side entries ↔ ⟨some (some side), some (some p)⟩ ∈ entries := by
  unfold pricesOf
  rw [List.mem_filterMap]
  constructor
  · rintro ⟨g, hg, hp⟩
    obtain ⟨type, px⟩ := g
    split_ifs at hp with htype
    rw [← htype, ← Option.join_eq_some_iff.mp hp]
    exact hg
  · intro h
    exact ⟨_, h, by simp⟩

theorem lastSet_append {α : Type} (field : EntryGroup → Option (Option α))
    (entries : List EntryGroup) (g : EntryGroup) :
    lastSet field (entries ++ [g]) = getFieldIfSet (lastSet field entries) (field g) := by
  unfold lastSet getFieldIfSet
  rw [List.filterMap_append]
  cases h : field g <;> simp [h]

theorem upToLast_append (side : Char) (entries : List EntryGroup) (g : EntryGroup) :
    upToLast side (entries ++ [g]) =
      if lastSet EntryGroup.mdEntryType (entries ++ [g]) = some side then some (entries ++ [g])
      else upToLast side entries := by
  have hinits : (entries ++ [g]).inits.tail = entries.inits.tail ++ [entries ++ [g]] := by
    rw [List.inits_append]
    cases entries <;> simp
  unfold upToLast
  rw [hinits, List.filter_append]
  split_ifs with h <;> simp [h]

/-! ### What the decoders return -/

/-- With a missing field taken from the entries before, the last entry has a type, and a price if
it counts as a bid or an offer. -/
def ReadableWithRest (upTo : List EntryGroup) : Prop :=
  ∃ type, lastSet EntryGroup.mdEntryType upTo = some type ∧
    (type = mdEntryTypeBid ∨ type = mdEntryTypeOffer →
      (lastSet EntryGroup.mdEntryPx upTo).isSome = true)

/-- The entry itself has a type and a price, readable if it is a bid or an offer. -/
def EntryGroup.Readable (g : EntryGroup) : Prop :=
  ∃ type px, g.mdEntryType = some (some type) ∧ g.mdEntryPx = some px ∧
    (type = mdEntryTypeBid ∨ type = mdEntryTypeOffer → px.isSome = true)

/-- The last price of the entries up to the last one that counts as one of the side. -/
def takenPrice (side : Char) (entries : List EntryGroup) : Option Price :=
  (upToLast side entries).bind (lastSet EntryGroup.mdEntryPx)

def Locals.after (entries : List EntryGroup) : Locals where
  mdentrytype := lastSet EntryGroup.mdEntryType entries
  mdentrypx := lastSet EntryGroup.mdEntryPx entries
  bidpx := (takenPrice mdEntryTypeBid entries).getD 0
  askpx := (takenPrice mdEntryTypeOffer entries).getD 0

def Px.after (symbol : Str) (entries : List EntryGroup) : Px where
  symbol := symbol
  bidpx := (pricesOf mdEntryTypeBid entries).getLast?
  offerpx := (pricesOf mdEntryTypeOffer entries).getLast?

theorem bid_ne_offer : mdEntryTypeBid ≠ mdEntryTypeOffer := by decide

theorem takenPrice_append (side : Char) (entries : List EntryGroup) (g : EntryGroup) :
    takenPrice side (entries ++ [g]) =
      if lastSet EntryGroup.mdEntryType (entries ++ [g]) = some side then
        lastSet EntryGroup.mdEntryPx (entries ++ [g])
      else takenPrice side entries := by
  unfold takenPrice
  rw [upToLast_append]
  split_ifs <;> rfl

theorem Locals.read_after {before : List EntryGroup} {g : EntryGroup}
    (h : ReadableWithRest (before ++ [g])) :
    (Locals.after before).read g = .ok (.after (before ++ [g])) := by
  obtain ⟨type, htype, hpx⟩ := h
  simp only [Locals.read, Locals.after, ← lastSet_append, takenPrice_append, htype, getValue,
    ok_bind, Option.some.injEq]
  by_cases hbid : type = mdEntryTypeBid
  · obtain ⟨p, hp⟩ := Option.isSome_iff_exists.mp (hpx (Or.inl hbid))
    simp [hbid, hp, bid_ne_offer]
  · by_cases hoffer : type = mdEntryTypeOffer
    · obtain ⟨p, hp⟩ := Option.isSome_iff_exists.mp (hpx (Or.inr hoffer))
      simp [hoffer, hp, bid_ne_offer.symm]
    · simp [hbid, hoffer]

theorem Locals.read_after_error {before : List EntryGroup} {g : EntryGroup}
    (h : ¬ ReadableWithRest (before ++ [g])) : ∃ e, (Locals.after before).read g = .error e := by
  simp only [Locals.read, Locals.after, ← lastSet_append]
  cases htype : lastSet EntryGroup.mdEntryType (before ++ [g]) with
  | none => exact ⟨_, rfl⟩
  | some type =>
      cases hpx : lastSet EntryGroup.mdEntryPx (before ++ [g]) with
      | some p => exact (h ⟨type, htype, by simp [hpx]⟩).elim
      | none =>
          -- without a price only a bid and an offer are asked for one
          by_cases hbid : type = mdEntryTypeBid
          · exact ⟨.incorrectDataFormat 270, by simp [getValue, hbid]⟩
          · by_cases hoffer : type = mdEntryTypeOffer
            · exact ⟨.incorrectDataFormat 270, by simp [getValue, hoffer, bid_ne_offer.symm]⟩
            · exact (h ⟨type, htype, by simp [hbid, hoffer]⟩).elim

theorem Px.read_after {symbol : Str} {before : List EntryGroup} {g : EntryGroup} (h : g.Readable) :
    (Px.after symbol before).read g = .ok (.after symbol (before ++ [g])) := by
  obtain ⟨type, px, htype, hpx, hread⟩ := h
  simp only [Px.read, Px.after, pricesOf, List.filterMap_append, htype, hpx, get, getValue, ok_bind]
  by_cases hbid : type = mdEntryTypeBid
  · obtain ⟨p, rfl⟩ := Option.isSome_iff_exists.mp (hread (Or.inl hbid))
    simp [hbid, htype, hpx, bid_ne_offer]
  · by_cases hoffer : type = mdEntryTypeOffer
    · obtain ⟨p, rfl⟩ := Option.isSome_iff_exists.mp (hread (Or.inr hoffer))
      simp [hoffer, htype, hpx, bid_ne_offer.symm]
    · simp [hbid, hoffer, htype]

theorem Px.read_error {price : Px} {g : EntryGroup} (h : ¬ g.Readable) :
    ∃ e, price.read g = .error e := by
  obtain ⟨type, px⟩ := g
  rcases type with _ | _ | type
  · exact ⟨_, rfl⟩
  · cases px <;> exact ⟨_, rfl⟩
  rcases px with _ | _ | p
  · exact ⟨_, rfl⟩
  · by_cases hbid : type = mdEntryTypeBid
    · exact ⟨.incorrectDataFormat 270, by simp [Px.read, get, getValue, hbid]⟩
    · by_cases hoffer : type = mdEntryTypeOffer
      · exact ⟨.incorrectDataFormat 270,
          by simp [Px.read, get, getValue, hoffer, bid_ne_offer.symm]⟩
      · exact (h ⟨type, none, rfl, rfl, by simp [hbid, hoffer]⟩).elim
  · exact (h ⟨type, some p, rfl, rfl, fun _ => rfl⟩).elim

theorem counted_eq {message : Snapshot} {list : ℤ} (h : message.noMDEntries = some (some list)) :
    message.counted = message.groups.take list.toNat := by
  rw [Snapshot.counted, h]

theorem processMDSnapshotFullRefresh_eq_ok_iff {message : Snapshot} {t : Tick} :
    processMDSnapshotFullRefresh message = .ok t ↔
      (message.Counts ∧
        ∀ before g rest, message.counted = before ++ g :: rest → ReadableWithRest (before ++ [g])) ∧
      t = ⟨message.symbol.getD [], (takenPrice mdEntryTypeBid message.counted).getD 0,
        (takenPrice mdEntryTypeOffer message.counted).getD 0, 0, 0, ascii "bitstamp"⟩ := by
  have hloop (entries : List EntryGroup) (l : Locals) :
      entries.foldlM Locals.read .new = .ok l ↔
        (∀ before g rest, entries = before ++ g :: rest → ReadableWithRest (before ++ [g])) ∧
          l = .after entries :=
    foldlM_eq_ok_iff Locals.after (fun before g => ReadableWithRest (before ++ [g]))
      (fun _ _ => Locals.read_after) (fun _ _ => Locals.read_after_error) entries l
  unfold processMDSnapshotFullRefresh Snapshot.Counts
  rcases hno : message.noMDEntries with _ | _ | list
  · simp [getFieldIfSet, getValue]
  · simp [getFieldIfSet, getValue]
  · simp only [getFieldIfSet, getValue, Option.getD_some, ok_bind, bind_eq_ok_iff,
      groupLoop_eq_ok_iff, hloop, counted_eq hno, Option.some.injEq, exists_eq_left']
    constructor
    · rintro ⟨l, ⟨hcount, hread, rfl⟩, ht⟩
      exact ⟨⟨hcount, hread⟩, (Except.ok.inj ht).symm⟩
    · rintro ⟨⟨hcount, hread⟩, rfl⟩
      exact ⟨_, ⟨hcount, hread, rfl⟩, rfl⟩

theorem onMessage_eq_ok_iff {message : Snapshot} {sessionID : SessionID} {line : Line} :
    onMessage message sessionID = .ok line ↔
      ((∃ symbol, message.symbol = some symbol ∧ line.price = .after symbol message.counted) ∧
        message.Counts ∧ ∀ g ∈ message.counted, g.Readable) ∧
      line.spread = line.price.spread ∧ line.senderCompID = sessionID.senderCompID := by
  have hloop (symbol : Str) (entries : List EntryGroup) (price : Px) :
      entries.foldlM Px.read ⟨symbol, none, none⟩ = .ok price ↔
        (∀ before g rest, entries = before ++ g :: rest → g.Readable) ∧
          price = .after symbol entries :=
    foldlM_eq_ok_iff (Px.after symbol) (fun _ g => g.Readable)
      (fun _ _ => Px.read_after) (fun _ _ => Px.read_error) entries price
  have hall (entries : List EntryGroup) :
      (∀ before g rest, entries = before ++ g :: rest → g.Readable) ↔
        ∀ g ∈ entries, g.Readable := by
    constructor
    · intro h g hg
      obtain ⟨before, rest, hsplit⟩ := List.append_of_mem hg
      exact h before g rest hsplit
    · rintro h before g rest rfl
      exact h g (by simp)
  unfold onMessage Snapshot.Counts
  rcases message.symbol with _ | symbol
  · simp [get]
  rcases hno : message.noMDEntries with _ | _ | list
  · simp [get]
  · simp [get, getValue]
  · simp only [get, getValue, ok_bind, bind_eq_ok_iff, groupLoop_eq_ok_iff, hloop, hall,
      counted_eq hno, Option.some.injEq, exists_eq_left']
    obtain ⟨price, spread, senderCompID⟩ := line
    constructor
    · rintro ⟨price', ⟨hcount, hread, rfl⟩, hline⟩
      cases hline
      exact ⟨⟨rfl, hcount, hread⟩, rfl, rfl⟩
    · rintro ⟨⟨rfl, hcount, hread⟩, hspread, hsender⟩
      dsimp only at hspread hsender
      rw [hspread, hsender]
      exact ⟨_, ⟨hcount, hread, rfl⟩, rfl⟩

end ForexSuite.SnapshotDecoders
