import ForexSuite.PriceFeed

/-!
# The lists of connections

Two servers enter every connection that is opened into a list, and the JSON datafeed
makes a `Client` for it as well. `on_close` takes nothing out of these lists. The
destructors go through the list and ask the transport for the connection of each
handle, whether it is still there or not.
-/
namespace ForexSuite.ConnectionLists

open TextNumbers EventMachine Connections Getline
open PriceFeed (WebSocketServer actionLoop)

variable {η : Type*}

structure Client (η : Type*) where
  hdl : η
  location : Text

/-- The server of the JSON datafeed. `_client` has a `Client` for each connection. -/
structure WebSocketS (η : Type*) where
  connectionlist : List η
  client : List (Client η)
  symSub : Finmap (fun _ : Text => Bool)
  hdl1 : Option η

namespace WebSocketS

def new : WebSocketS η := ⟨[], [], ∅, none⟩

def onOpen (hdl : η) (remoteEndpoint : Text) (s : WebSocketS η) : WebSocketS η :=
  { s with
    connectionlist := s.connectionlist ++ [hdl]
    client := s.client ++ [⟨hdl, remoteEndpoint⟩]
    symSub := ∅ }

/-- Neither list is changed. -/
def onClose (_ : η) (s : WebSocketS η) : WebSocketS η := { s with symSub := ∅ }

/-- The call of `_addSubscriptionCmd` changes nothing here. -/
def onMessage (hdl : η) (msg : Text) (s : WebSocketS η) : WebSocketS η :=
  { s with hdl1 := some hdl, symSub := actionLoop false false (getlines ',' msg) s.symSub }

/-- The handles for which `~WebSocketS` calls `get_con_from_hdl`. -/
def destructorHandles (s : WebSocketS η) : List η := s.connectionlist

end WebSocketS

/-- The handles for which `~WebSocketServer` calls `get_con_from_hdl`. -/
def destructorHandles (s : WebSocketServer η) : List η := s.connectionlist

inductive Event (η : Type*) where
  | onOpen (hdl : η) (remoteEndpoint : Text)
  | onClose (hdl : η)
  | onMessage (hdl : η) (msg : Text)

def step (s : WebSocketS η) : Event η → WebSocketS η × Unit
  | .onOpen hdl remoteEndpoint => (s.onOpen hdl remoteEndpoint, ())
  | .onClose hdl => (s.onClose hdl, ())
  | .onMessage hdl msg => (s.onMessage hdl msg, ())

def signal : Event η → Signal η
  | .onOpen hdl _ => .opens hdl
  | .onClose hdl => .closes hdl
  | .onMessage hdl _ => .uses hdl

/-- The list has the handles that are open, and the destructor asks for no other one. -/
def HoldsOpen (s : WebSocketServer η) (live : Finset η) : Prop :=
  (∀ hdl, hdl ∈ s.connectionlist ↔ hdl ∈ live) ∧ ∀ hdl ∈ destructorHandles s, hdl ∈ live

/-- The same of the JSON datafeed, and there is one client for each open connection. -/
def WebSocketS.HoldsOpen (s : WebSocketS η) (live : Finset η) : Prop :=
  (∀ hdl, hdl ∈ s.connectionlist ↔ hdl ∈ live) ∧ (s.client.map Client.hdl : Multiset η) = live.val ∧
    ∀ hdl ∈ s.destructorHandles, hdl ∈ live

/-- A list that holds the handles opened so far holds those that are open exactly if these are the
same. -/
theorem mem_iff_open {handles : List η} {opened live : Finset η}
    (h : (handles : Multiset η) = opened.val) :
    (∀ hdl, hdl ∈ handles ↔ hdl ∈ live) ↔ opened = live := by
  have hmem (hdl : η) : hdl ∈ handles ↔ hdl ∈ opened := by
    rw [← Multiset.mem_coe, h, Finset.mem_val]
  simp only [hmem, Finset.ext_iff]

theorem holdsOpen_iff {s : WebSocketServer η} {opened live : Finset η}
    (h : (s.connectionlist : Multiset η) = opened.val) : HoldsOpen s live ↔ opened = live := by
  rw [← mem_iff_open h]
  exact ⟨fun hs => hs.1, fun hs => ⟨hs, fun hdl hmem => (hs hdl).mp hmem⟩⟩

theorem WebSocketS.holdsOpen_iff {s : WebSocketS η} {opened live : Finset η}
    (h : (s.connectionlist : Multiset η) = opened.val)
    (hclient : (s.client.map Client.hdl : Multiset η) = opened.val) :
    s.HoldsOpen live ↔ opened = live := by
  rw [← mem_iff_open h]
  constructor
  · intro hs
    exact hs.1
  · intro hs
    have heq := (mem_iff_open h).mp hs
    exact ⟨hs, by rw [hclient, heq], fun hdl hmem => (hs hdl).mp hmem⟩

variable [DecidableEq η]

theorem connectionlist_eq_opened {events : List (PriceFeed.Event η)}
    (h : Orderly PriceFeed.signal events) :
    ((run PriceFeed.step .new events).connectionlist : Multiset η) =
      (openedAfter PriceFeed.signal events).val := by
  refine handles_eq_opened WebSocketServer.connectionlist ?_ ?_ rfl h
  · intro s e hdl he
    cases e <;> cases he
    rfl
  · intro s e he
    cases e with
    | onOpen hdl => exact (he hdl rfl).elim
    | onClose hdl => rfl
    | onMessage hdl msg => rfl
    | tick symbol tick => rfl

namespace WebSocketS

theorem connectionlist_eq_opened {events : List (Event η)} (h : Orderly signal events) :
    ((run step .new events).connectionlist : Multiset η) = (openedAfter signal events).val := by
  refine handles_eq_opened connectionlist ?_ ?_ rfl h
  · intro s e hdl he
    cases e <;> cases he
    rfl
  · intro s e he
    cases e with
    | onOpen hdl remoteEndpoint => exact (he hdl rfl).elim
    | onClose hdl => rfl
    | onMessage hdl msg => rfl

theorem client_eq_opened {events : List (Event η)} (h : Orderly signal events) :
    ((run step .new events).client.map Client.hdl : Multiset η) =
      (openedAfter signal events).val := by
  refine handles_eq_opened (fun s : WebSocketS η => s.client.map Client.hdl) ?_ ?_ rfl h
  · intro s e hdl he
    cases e <;> cases he
    exact List.map_append
  · intro s e he
    cases e with
    | onOpen hdl remoteEndpoint => exact (he hdl rfl).elim
    | onClose hdl => rfl
    | onMessage hdl msg => rfl

end WebSocketS

/-- For every run of the two servers in which the transport keeps to its rules: in every state the
lists hold what is open, and the destructor only asks for connections that are open, exactly if
nothing has been closed. -/
theorem lists_hold_open_iff (events : List (PriceFeed.Event η)) (jsonEvents : List (Event η))
    (h : Orderly PriceFeed.signal events) (hjson : Orderly signal jsonEvents) :
    ((∀ k, HoldsOpen (run PriceFeed.step .new (events.take k))
        (openAfter PriceFeed.signal (events.take k))) ↔
      ∀ hdl, PriceFeed.Event.onClose hdl ∉ events) ∧
    ((∀ k, (run step .new (jsonEvents.take k)).HoldsOpen (openAfter signal (jsonEvents.take k))) ↔
      ∀ hdl, Event.onClose hdl ∉ jsonEvents) := by
  constructor
  · have hiff (k : ℕ) : HoldsOpen (run PriceFeed.step .new (events.take k))
          (openAfter PriceFeed.signal (events.take k)) ↔
        openedAfter PriceFeed.signal (events.take k) =
          openAfter PriceFeed.signal (events.take k) :=
      holdsOpen_iff (connectionlist_eq_opened (h.take k))
    simp only [hiff]
    rw [opened_eq_open_iff h]
    constructor
    · intro hall hdl hmem
      exact hall _ hmem hdl rfl
    · intro hno e he hdl hsignal
      cases e <;> cases hsignal
      exact hno hdl he
  · have hiff (k : ℕ) : (run step .new (jsonEvents.take k)).HoldsOpen
          (openAfter signal (jsonEvents.take k)) ↔ openedAfter signal (jsonEvents.take k) =
            openAfter signal (jsonEvents.take k) :=
      WebSocketS.holdsOpen_iff (WebSocketS.connectionlist_eq_opened (hjson.take k))
        (WebSocketS.client_eq_opened (hjson.take k))
    simp only [hiff]
    rw [opened_eq_open_iff hjson]
    constructor
    · intro hall hdl hmem
      exact hall _ hmem hdl rfl
    · intro hno e he hdl hsignal
      cases e <;> cases hsignal
      exact hno hdl he

/-- Two connections of each server. -/
theorem lists_hold_open_two :
    let events : List (PriceFeed.Event ℕ) := [.onOpen 1, .onOpen 2]
    let jsonEvents : List (Event ℕ) := [.onOpen 1 "a".toList, .onOpen 2 "b".toList]
    (∀ hdl ∈ destructorHandles (run PriceFeed.step .new events),
        hdl ∈ openAfter PriceFeed.signal events) ∧
      ((run step .new jsonEvents).client.map Client.hdl : Multiset ℕ) =
        (openAfter signal jsonEvents).val := by
  intro events jsonEvents
  have h : Orderly PriceFeed.signal events := by
    unfold Orderly events
    simp only [Along]
    decide
  have hjson : Orderly signal jsonEvents := by
    unfold Orderly jsonEvents
    simp only [Along]
    decide
  have hiff := lists_hold_open_iff events jsonEvents h hjson
  exact ⟨(hiff.1.mpr (by simp [events]) 2).2, (hiff.2.mpr (by simp [jsonEvents]) 2).2.1⟩

/-- A connection is opened and closed. -/
theorem closed_connections_stay_listed :
    let events : List (PriceFeed.Event ℕ) := [.onOpen 1, .onClose 1]
    let jsonEvents : List (Event ℕ) := [.onOpen 1 "a".toList, .onClose 1]
    Orderly PriceFeed.signal events ∧ Orderly signal jsonEvents ∧
      openAfter PriceFeed.signal events = ∅ ∧ openAfter signal jsonEvents = ∅ ∧
      destructorHandles (run PriceFeed.step .new events) = [1] ∧
      (run step .new jsonEvents).connectionlist = [1] ∧
      (run step .new jsonEvents).client.map Client.hdl = [1] := by
  intro events jsonEvents
  unfold Orderly events jsonEvents
  simp only [Along]
  decide

end ForexSuite.ConnectionLists
