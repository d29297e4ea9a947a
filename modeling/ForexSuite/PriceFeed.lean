import ForexSuite.Connections
import ForexSuite.Getline
import ForexSuite.PriceServer

/-!
# The WebSocket price feed

All clients of the feed share one set of symbols and one handle: `sym_sub`, which
every client that connects or disconnects clears, and `hdl_1`, the handle the last
message came from. A tick of a symbol in the set is sent to this handle.

What the server asks of the manager for a symbol does not change its own state,
and nothing reads the queue to which the callbacks also push; both are left out.
-/
namespace ForexSuite.PriceFeed

open TextNumbers EventMachine Connections Getline
open PriceServer (MTTickShort Price)

variable {η : Type*} [DecidableEq η]

/-- The fields of `WebSocketServer` that decide what is sent to whom. A handle that has not been
assigned is `none`. -/
structure WebSocketServer (η : Type*) where
  connectionlist : List η
  symSub : Finmap (fun _ : Text => Bool)
  hdl1 : Option η

def WebSocketServer.new : WebSocketServer η := ⟨[], ∅, none⟩

/-- The arguments of `m_server.send`, the quote before it is written as JSON. -/
structure Sent (η : Type*) where
  hdl : Option η
  symbol : Text
  bidPx : Price
  askPx : Price
deriving DecidableEq

def isSubscribeWord (action : Text) : Bool :=
  action = "SUBSCRIBE".toList || action = "subscribe".toList

def isUnSubscribeWord (action : Text) : Bool :=
  action = "UNSUBSCRIBE".toList || action = "unsubscribe".toList

/-- The loop of `isValidRequest` over the items of a payload. A command word sets its flag, and
no flag is ever taken back. -/
def actionLoop : Bool → Bool → List Text → Finmap (fun _ : Text => Bool) →
    Finmap (fun _ : Text => Bool)
  | _, _, [], symSub => symSub
  | isSubscribe, isUnSubscribe, action :: actions, symSub =>
      if isSubscribeWord action then actionLoop true isUnSubscribe actions symSub
      else if isUnSubscribeWord action then actionLoop isSubscribe true actions symSub
      else
        let symSub := if isSubscribe then symSub.insert action true else symSub
        let symSub := if isUnSubscribe then symSub.erase action else symSub
        actionLoop isSubscribe isUnSubscribe actions symSub

namespace WebSocketServer

def onOpen (hdl : η) (s : WebSocketServer η) : WebSocketServer η :=
  { s with connectionlist := s.connectionlist ++ [hdl], symSub := ∅ }

/-- The handle stays in `connectionlist`. -/
def onClose (_ : η) (s : WebSocketServer η) : WebSocketServer η := { s with symSub := ∅ }

def isValidRequest (hdl : η) (msg : Text) (s : WebSocketServer η) : WebSocketServer η :=
  { s with hdl1 := some hdl, symSub := actionLoop false false (getlines ',' msg) s.symSub }

def onMessage (hdl : η) (msg : Text) (s : WebSocketServer η) : WebSocketServer η :=
  s.isValidRequest hdl msg

def sendJSONTick (symbol : Text) (tick : MTTickShort) (s : WebSocketServer η) : Option (Sent η) :=
  if symbol ∈ s.symSub then some ⟨s.hdl1, symbol, tick.bid, tick.ask⟩ else none

end WebSocketServer

inductive Event (η : Type*) where
  | onOpen (hdl : η)
  | onClose (hdl : η)
  | onMessage (hdl : η) (msg : Text)
  | tick (symbol : Text) (tick : MTTickShort)

def step (s : WebSocketServer η) : Event η → WebSocketServer η × Option (Sent η)
  | .onOpen hdl => (s.onOpen hdl, none)
  | .onClose hdl => (s.onClose hdl, none)
  | .onMessage hdl msg => (s.onMessage hdl msg, none)
  | .tick symbol tick => (s, s.sendJSONTick symbol tick)

def signal : Event η → Signal η
  | .onOpen hdl => .opens hdl
  | .onClose hdl => .closes hdl
  | .onMessage hdl _ => .uses hdl
  | .tick _ _ => .none

/-! ### Quotes go to open connections -/

/-- While a symbol is subscribed, the handle quotes are sent to is open. -/
def SendsToOpen (s : WebSocketServer η) (l : Lifecycle η) : Prop :=
  s.symSub ≠ ∅ → ∃ hdl ∈ l.live, s.hdl1 = some hdl

theorem step_sendsToOpen (s : WebSocketServer η) (l : Lifecycle η) (e : Event η)
    (h : SendsToOpen s l) (hp : l.Permits (signal e)) :
    SendsToOpen (step s e).1 (l.after (signal e)) := by
  cases e with
  | onOpen hdl =>
      intro hne
      exact (hne rfl).elim
  | onClose hdl =>
      intro hne
      exact (hne rfl).elim
  | onMessage hdl msg =>
      intro _
      exact ⟨hdl, hp, rfl⟩
  | tick symbol tick => exact h

/-- In every run in which the transport keeps to its rules, whatever the messages are, a set of
symbols that is not empty means that `hdl_1` is open, and every quote is sent to an open
connection. -/
theorem sends_to_open (events : List (Event η)) (h : Orderly signal events) :
    let s := run step .new events
    (s.symSub ≠ ∅ → ∃ hdl ∈ openAfter signal events, s.hdl1 = some hdl) ∧
      ∀ symbol tick, ∀ sent ∈ s.sendJSONTick symbol tick,
        ∃ hdl ∈ openAfter signal events, sent.hdl = some hdl := by
  intro s
  have hopen : SendsToOpen s (run (Lifecycle.step signal) .new events) :=
    h.related SendsToOpen step_sendsToOpen fun hne => (hne rfl).elim
  refine ⟨hopen, ?_⟩
  intro symbol tick sent hsent
  unfold WebSocketServer.sendJSONTick at hsent
  split_ifs at hsent with hmem
  · have hne : s.symSub ≠ ∅ := by
      intro hempty
      rw [hempty] at hmem
      exact Finmap.notMem_empty hmem
    cases hsent
    exact hopen hne
  · cases hsent

/-- The handle of the last message belongs to a client that has left; the other one subscribes
after that. -/
theorem sends_to_open_run :
    let events : List (Event ℕ) := [.onOpen 1, .onOpen 2, .onMessage 1 "SUBSCRIBE,EURUSD".toList,
      .onClose 1, .onMessage 2 "SUBSCRIBE,EURUSD".toList]
    ∃ hdl ∈ openAfter signal events, (run step .new events).hdl1 = some hdl := by
  intro events
  have horderly : Orderly signal events := by
    unfold Orderly events
    simp only [Along]
    decide
  exact (sends_to_open events horderly).1 (by decide)

end ForexSuite.PriceFeed
