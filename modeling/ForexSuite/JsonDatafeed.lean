import ForexSuite.EventMachine
import ForexSuite.MapValues
import ForexSuite.PriceServer

/-!
# The JSON datafeed

The manager interface keeps one publisher for each symbol, and a publisher keeps the
handlers of its clients. `addSubscription` tells the client that it is subscribed and
touches neither. The only publisher is the one that `start` makes for BTCUSD, and
`registerClient` enters every handler under one key, so that a publisher keeps the
first handler it is given.

`Ledger` records which subscriptions were acknowledged, and the first handler that was
registered for BTCUSD. A handler is whatever the callers pass; what is observed of a
tick are the handlers called with it.
-/
namespace ForexSuite.JsonDatafeed

open TextNumbers EventMachine MapValues
open PriceServer (Str ascii MTTickShort)

variable {η : Type*}

structure InstrumentDataPublisher (η : Type*) where
  mdUpdateHandlerByClientID : Finmap fun _ : Str => η

namespace InstrumentDataPublisher

def new : InstrumentDataPublisher η := ⟨∅⟩

/-- The key is the same for all clients. -/
def registerClient (handler : η) (p : InstrumentDataPublisher η) :
    InstrumentDataPublisher η × Bool :=
  (⟨insertNew (ascii "1") handler p.mdUpdateHandlerByClientID⟩,
    decide (ascii "1" ∉ p.mdUpdateHandlerByClientID))

/-- The calls of handlers, in no particular order. -/
def handleDataUpdate (upd : MTTickShort) (p : InstrumentDataPublisher η) :
    Multiset (η × MTTickShort) :=
  (values p.mdUpdateHandlerByClientID).map fun handler => (handler, upd)

end InstrumentDataPublisher

structure ManagerInterface (η : Type*) where
  instrumentMDPubBySymbol : Finmap fun _ : Str => InstrumentDataPublisher η

def btcusd : Str := ascii "BTCUSD"

namespace ManagerInterface

def new : ManagerInterface η := ⟨∅⟩

/-- Unless the connection fails. The call of `addHandler` does nothing, since its body is commented
out. -/
def start (connected : Bool) (m : ManagerInterface η) : ManagerInterface η :=
  if connected then ⟨insertNew btcusd .new m.instrumentMDPubBySymbol⟩ else m

def addSubscription (_clientID _symbol : Str) (_mdHandler : η) (m : ManagerInterface η) :
    ManagerInterface η × Bool × Str :=
  (m, true, ascii "BCHUSD")

/-- The call of `registerClient` on the symbol's publisher, where there is one. -/
def registerClient (symbol : Str) (handler : η) (m : ManagerInterface η) : ManagerInterface η :=
  match m.instrumentMDPubBySymbol.lookup symbol with
  | some p => ⟨m.instrumentMDPubBySymbol.insert symbol (p.registerClient handler).1⟩
  | none => m

def onTick (narrow : Text → Str) (symbol : Text) (tick : MTTickShort) (m : ManagerInterface η) :
    Multiset (η × MTTickShort) :=
  match m.instrumentMDPubBySymbol.lookup (narrow symbol) with
  | some p => p.handleDataUpdate tick
  | none => 0

end ManagerInterface

inductive Event (η : Type*) where
  | addSubscription (clientID symbol : Str) (mdHandler : η)
  | registerClient (symbol : Str) (handler : η)
  | onTick (symbol : Text) (tick : MTTickShort)

structure Outcome (η : Type*) where
  answer : Option (Bool × Str) := none
  calls : Multiset (η × MTTickShort) := 0

def step (narrow : Text → Str) (m : ManagerInterface η) :
    Event η → ManagerInterface η × Outcome η
  | .addSubscription clientID symbol mdHandler =>
      let r := m.addSubscription clientID symbol mdHandler
      (r.1, { answer := some r.2 })
  | .registerClient symbol handler => (m.registerClient symbol handler, {})
  | .onTick symbol tick => (m, { calls := m.onTick narrow symbol tick })

/-! ### What was acknowledged -/

/-- The handler of each client that is subscribed to a symbol, and the first one registered for
BTCUSD. -/
structure Ledger (η : Type*) where
  subscribers : Str → Finmap fun _ : Str => η
  firstRegistered : Option η

def Ledger.new : Ledger η := ⟨fun _ => ∅, none⟩

def Ledger.subscribe (clientID symbol : Str) (mdHandler : η) (cur : Ledger η) : Ledger η :=
  { cur with
    subscribers :=
      Function.update cur.subscribers symbol ((cur.subscribers symbol).insert clientID mdHandler) }

def ledgerStep (cur : Ledger η) (o : Outcome η) : Event η → Ledger η
  | .addSubscription clientID symbol mdHandler =>
      match o.answer with
      | some (true, _) => cur.subscribe clientID symbol mdHandler
      | _ => cur
  | .registerClient symbol handler =>
      if symbol = btcusd then { cur with firstRegistered := cur.firstRegistered.or (some handler) }
      else cur
  | .onTick _ _ => cur

/-- The interface with the ledger beside it. The ledger is never read. -/
def observedStep (narrow : Text → Str) (s : ManagerInterface η × Ledger η) (e : Event η) :
    (ManagerInterface η × Ledger η) × Outcome η :=
  let r := step narrow s.1 e
  ((r.1, ledgerStep s.2 r.2 e), r.2)

/-- A tick calls the handler of every client that is subscribed to its symbol once, and no other. -/
def Served (narrow : Text → Str) (s : ManagerInterface η × Ledger η) : Event η → Prop
  | .onTick symbol tick =>
      s.1.onTick narrow symbol tick =
        (values (s.2.subscribers (narrow symbol))).map fun handler => (handler, tick)
  | _ => True

/-- The handler a tick of the symbol can reach. -/
def Ledger.reached (connected : Bool) (symbol : Str) (cur : Ledger η) : Option η :=
  if connected ∧ symbol = btcusd then cur.firstRegistered else none

/-- Where a handler is reached, it is that of the only subscriber; elsewhere there is none. -/
def OnlyReached (narrow : Text → Str) (connected : Bool) (s : ManagerInterface η × Ledger η) :
    Event η → Prop
  | .onTick symbol _ =>
      match s.2.reached connected (narrow symbol) with
      | some handler => ∃ clientID, s.2.subscribers (narrow symbol) = .singleton clientID handler
      | none => s.2.subscribers (narrow symbol) = ∅
  | _ => True

/-- The publishers there are once a handler has been registered for BTCUSD, or none yet. -/
def published : Bool → Option η → ManagerInterface η
  | false, _ => .new
  | true, none => ⟨.singleton btcusd .new⟩
  | true, some handler => ⟨.singleton btcusd ⟨.singleton (ascii "1") handler⟩⟩

theorem start_new (connected : Bool) :
    (ManagerInterface.new.start connected : ManagerInterface η) = published connected none := by
  cases connected <;> rfl

/-- The first handler stays. -/
theorem registerClient_btcusd (connected : Bool) (registered : Option η) (handler : η) :
    (published connected registered).registerClient btcusd handler =
      published connected (registered.or (some handler)) := by
  cases connected with
  | false => rfl
  | true =>
      cases registered <;>
        simp [published, ManagerInterface.registerClient, InstrumentDataPublisher.registerClient,
          InstrumentDataPublisher.new, Finmap.insert_singleton_eq]

theorem lookup_published_of_ne (connected : Bool) (registered : Option η) {symbol : Str}
    (h : symbol ≠ btcusd) :
    (published connected registered).instrumentMDPubBySymbol.lookup symbol = none := by
  cases connected with
  | false => rfl
  | true =>
      cases registered <;> simp [published, Finmap.lookup_eq_none, Finmap.mem_singleton, h]

theorem step_published {narrow : Text → Str} {connected : Bool}
    (s : ManagerInterface η × Ledger η) (e : Event η)
    (h : s.1 = published connected s.2.firstRegistered) :
    (observedStep narrow s e).1.1 =
      published connected (observedStep narrow s e).1.2.firstRegistered := by
  cases e with
  | addSubscription clientID symbol mdHandler => exact h
  | registerClient symbol handler =>
      simp only [observedStep, step, ledgerStep, h]
      split_ifs with hsymbol
      · rw [hsymbol]
        exact registerClient_btcusd connected _ handler
      · rw [ManagerInterface.registerClient, lookup_published_of_ne _ _ hsymbol]
  | onTick symbol tick => exact h

/-- A tick calls the handler it reaches, if any. -/
theorem onTick_published (narrow : Text → Str) (symbol : Text) (tick : MTTickShort)
    (connected : Bool) (cur : Ledger η) :
    (published connected cur.firstRegistered).onTick narrow symbol tick =
      match cur.reached connected (narrow symbol) with
      | some handler => {(handler, tick)}
      | none => 0 := by
  by_cases hsymbol : narrow symbol = btcusd
  · cases connected with
    | false => simp [published, Ledger.reached, ManagerInterface.onTick, ManagerInterface.new]
    | true =>
        rw [ManagerInterface.onTick, Ledger.reached, if_pos ⟨rfl, hsymbol⟩, hsymbol]
        cases cur.firstRegistered <;>
          simp [published, InstrumentDataPublisher.handleDataUpdate, InstrumentDataPublisher.new]
  · rw [ManagerInterface.onTick, lookup_published_of_ne _ _ hsymbol, Ledger.reached,
      if_neg fun h => hsymbol h.2]

theorem served_iff {narrow : Text → Str} {connected : Bool} (s : ManagerInterface η × Ledger η)
    (e : Event η) (h : s.1 = published connected s.2.firstRegistered) :
    Served narrow s e ↔ OnlyReached narrow connected s e := by
  cases e with
  | addSubscription clientID symbol mdHandler => exact Iff.rfl
  | registerClient symbol handler => exact Iff.rfl
  | onTick symbol tick =>
      rw [Served, OnlyReached, h, onTick_published]
      cases s.2.reached connected (narrow symbol) with
      | none =>
          rw [eq_comm, Multiset.map_eq_zero]
          exact values_eq_zero
      | some handler =>
          have hinj : Function.Injective fun handler : η => (handler, tick) :=
            fun _ _ heq => (Prod.ext_iff.mp heq).1
          change ({handler} : Multiset η).map (fun handler => (handler, tick)) = _ ↔ _
          rw [(Multiset.map_injective hinj).eq_iff, eq_comm]
          exact values_eq_singleton

/-- In every run, all ticks are delivered to the subscribers of their symbol exactly when each
one reaches the handler of its symbol's only subscriber, or its symbol has none and it reaches
nothing. -/
theorem ticks_are_served_iff (narrow : Text → Str) (connected : Bool) (events : List (Event η)) :
    Along (observedStep narrow) (Served narrow) (ManagerInterface.new.start connected, .new)
        events ↔
      Along (observedStep narrow) (OnlyReached narrow connected)
        (ManagerInterface.new.start connected, .new) events :=
  along_congr (fun s => s.1 = published connected s.2.firstRegistered) step_published served_iff
    (start_new connected)

/-- EURUSD has no publisher, and of the two clients of BTCUSD only the first one is kept. -/
theorem subscribers_are_not_served :
    let narrow := PriceServer.asciiConversions.narrow
    let eurusd := ascii "EURUSD"
    let tick : MTTickShort := ⟨1, 2⟩
    let start : ManagerInterface ℕ × Ledger ℕ := (ManagerInterface.new.start true, .new)
    ¬ Along (observedStep narrow) (Served narrow) start
        [.addSubscription (ascii "A") eurusd 7, .registerClient eurusd 7,
          .onTick "EURUSD".toList tick] ∧
      ¬ Along (observedStep narrow) (Served narrow) start
        [.addSubscription (ascii "A") btcusd 7, .registerClient btcusd 7,
          .addSubscription (ascii "B") btcusd 8, .registerClient btcusd 8,
          .onTick "BTCUSD".toList tick] := by
  simp only [Along, Served]
  decide

end ForexSuite.JsonDatafeed
