import ForexSuite.Connections
import ForexSuite.MapValues
import ForexSuite.TextNumbers
import Mathlib.Data.Finmap

/-!
# The action queue of the balance plugin

The callbacks of the transport only queue actions; `process_messages` takes them
one by one and keeps the table of connections. The table lags behind the
transport by the queue: the actions still in it lead from the handles of the
table to the handles that are open.
-/
namespace ForexSuite.ActionQueue

open TextNumbers EventMachine Connections MapValues

variable {η : Type*} [DecidableEq η]

/-- An `action`, with the fields that its type uses. -/
inductive Action (η : Type*) where
  | SUBSCRIBE (hdl : η)
  | UNSUBSCRIBE (hdl : η)
  | IN_MESSAGE (hdl : η) (msg : Text)
  | OUT_MESSAGE (outMsg : Text)
deriving Repr, DecidableEq

structure ConnectionData where
  sessionid : Int32
  name : Text
deriving DecidableEq

/-- The fields of `WebSocketServer` that its callbacks and `process_messages` share. -/
structure WebSocketServer (η : Type*) where
  connections : Finmap (fun _ : η => ConnectionData)
  actions : List (Action η)
  nextSessionid : Int32

def WebSocketServer.new : WebSocketServer η := ⟨∅, [], 1⟩

/-- `std::invalid_argument` with its text. -/
inductive ServerException where
  | invalidArgument (what : String)
deriving Repr, DecidableEq

/-- What one pass of `process_messages` does besides changing the table. A message to all
is sent to every handle of the table. -/
inductive Outcome (η : Type*) where
  | waiting
  | done
  | sentToAll (hdls : Finset η) (outMsg : Text)
  | thrown (e : ServerException)
deriving DecidableEq

namespace WebSocketServer

def onOpen (hdl : η) (s : WebSocketServer η) : WebSocketServer η :=
  { s with actions := s.actions ++ [.SUBSCRIBE hdl] }

def onClose (hdl : η) (s : WebSocketServer η) : WebSocketServer η :=
  { s with actions := s.actions ++ [.UNSUBSCRIBE hdl] }

def onMessage (hdl : η) (msg : Text) (s : WebSocketServer η) : WebSocketServer η :=
  { s with actions := s.actions ++ [.IN_MESSAGE hdl msg] }

def getDataFromHdl (hdl : η) (s : WebSocketServer η) : Except ServerException ConnectionData :=
  match s.connections.lookup hdl with
  | none => .error (.invalidArgument "No data available for session")
  | some data => .ok data

/-- The branches of `process_messages` for the action it has taken. -/
def processAction (a : Action η) (s : WebSocketServer η) : WebSocketServer η × Outcome η :=
  match a with
  | .SUBSCRIBE hdl =>
      ({ s with
          connections := s.connections.insert hdl ⟨s.nextSessionid, []⟩
          nextSessionid := s.nextSessionid + 1 }, .done)
  | .UNSUBSCRIBE hdl =>
      match s.getDataFromHdl hdl with
      | .error e => (s, .thrown e)
      | .ok _ => ({ s with connections := s.connections.erase hdl }, .done)
  | .IN_MESSAGE _ _ => (s, .done)
  | .OUT_MESSAGE outMsg => (s, .sentToAll s.connections.keys outMsg)

/-- One pass of the loop of `process_messages`; it waits while there is no action. -/
def processMessages (s : WebSocketServer η) : WebSocketServer η × Outcome η :=
  match s.actions with
  | [] => (s, .waiting)
  | a :: actions => processAction a { s with actions }

end WebSocketServer

inductive Event (η : Type*) where
  | onOpen (hdl : η)
  | onClose (hdl : η)
  | onMessage (hdl : η) (msg : Text)
  | processMessages

def step (s : WebSocketServer η) : Event η → WebSocketServer η × Outcome η
  | .onOpen hdl => (s.onOpen hdl, .done)
  | .onClose hdl => (s.onClose hdl, .done)
  | .onMessage hdl msg => (s.onMessage hdl msg, .done)
  | .processMessages => s.processMessages

/-- What the events of the server mean to the connections. -/
def signal : Event η → Signal η
  | .onOpen hdl => .opens hdl
  | .onClose hdl => .closes hdl
  | .onMessage hdl _ => .uses hdl
  | .processMessages => .none

/-- What an action does to the handles of the table. -/
def keysAfter (keys : Finset η) : Action η → Finset η
  | .SUBSCRIBE hdl => insert hdl keys
  | .UNSUBSCRIBE hdl => keys.erase hdl
  | .IN_MESSAGE _ _ => keys
  | .OUT_MESSAGE _ => keys

/-- An UNSUBSCRIBE finds its handle in the table. -/
def Finds (keys : Finset η) (a : Action η) : Prop :=
  ∀ hdl, a = .UNSUBSCRIBE hdl → hdl ∈ keys

/-- Applying the actions in order, each of them finds its handle and the last one leaves
exactly the handles given. -/
def LeadsTo (live : Finset η) : Finset η → List (Action η) → Prop
  | keys, [] => keys = live
  | keys, a :: actions => Finds keys a ∧ LeadsTo live (keysAfter keys a) actions

variable {s : WebSocketServer η} {keys live : Finset η} {actions : List (Action η)} {a : Action η}

/-- One more action at the end of the queue moves what the queue leads to. -/
theorem LeadsTo.append (h : LeadsTo live keys actions) (ha : Finds live a) :
    LeadsTo (keysAfter live a) keys (actions ++ [a]) := by
  induction actions generalizing keys with
  | nil =>
      have hkeys : keys = live := h
      rw [hkeys]
      exact ⟨ha, rfl⟩
  | cons b actions ih => exact ⟨h.1, ih h.2⟩

theorem LeadsTo.foldl_eq (h : LeadsTo live keys actions) : actions.foldl keysAfter keys = live := by
  induction actions generalizing keys with
  | nil => exact h
  | cons b actions ih => exact ih h.2

/-- No branch queues another action. -/
@[simp] theorem processAction_actions (a : Action η) (s : WebSocketServer η) :
    (s.processAction a).1.actions = s.actions := by
  cases a with
  | UNSUBSCRIBE hdl =>
      rw [WebSocketServer.processAction]
      cases s.getDataFromHdl hdl <;> rfl
  | _ => rfl

/-- An action that finds its handle is applied without an exception, and does to the handles
of the table what it stands for. -/
theorem processAction_eq (h : Finds s.connections.keys a) :
    (s.processAction a).1.connections.keys = keysAfter s.connections.keys a ∧
      ∀ e, (s.processAction a).2 ≠ .thrown e := by
  cases a with
  | SUBSCRIBE hdl => exact ⟨keys_insert _ _ _, by simp [WebSocketServer.processAction]⟩
  | UNSUBSCRIBE hdl =>
      have hmem : hdl ∈ s.connections := Finmap.mem_keys.mp (h hdl rfl)
      obtain ⟨data, hdata⟩ := Finmap.mem_iff.mp hmem
      simp only [WebSocketServer.processAction, WebSocketServer.getDataFromHdl, hdata]
      exact ⟨keys_erase _ _, by simp⟩
  | IN_MESSAGE hdl msg => exact ⟨rfl, by simp [WebSocketServer.processAction]⟩
  | OUT_MESSAGE outMsg => exact ⟨rfl, by simp [WebSocketServer.processAction]⟩

/-- The queue leads from the handles of the table to those that are open. -/
def Lags (s : WebSocketServer η) (l : Lifecycle η) : Prop :=
  LeadsTo l.live s.connections.keys s.actions

theorem step_lags (s : WebSocketServer η) (l : Lifecycle η) (e : Event η) (h : Lags s l)
    (hp : l.Permits (signal e)) : Lags (step s e).1 (l.after (signal e)) := by
  cases e with
  | onOpen hdl =>
      have hfinds : Finds l.live (.SUBSCRIBE hdl) := by simp [Finds]
      exact h.append hfinds
  | onClose hdl =>
      have hfinds : Finds l.live (.UNSUBSCRIBE hdl) := by
        intro hdl' heq
        cases heq
        exact hp
      exact h.append hfinds
  | onMessage hdl msg =>
      have hfinds : Finds l.live (.IN_MESSAGE hdl msg) := by simp [Finds]
      exact h.append hfinds
  | processMessages =>
      cases hactions : s.actions with
      | nil =>
          rw [step, WebSocketServer.processMessages, hactions]
          exact h
      | cons a actions =>
          unfold Lags at h ⊢
          rw [hactions] at h
          have hone := processAction_eq (s := { s with actions }) h.1
          rw [step, WebSocketServer.processMessages, hactions, hone.1, processAction_actions]
          exact h.2

/-- The outcome is no exception. -/
def Outcome.Returns (o : Outcome η) : Prop := ∀ e, o ≠ .thrown e

theorem step_returns (s : WebSocketServer η) (l : Lifecycle η) (e : Event η) (h : Lags s l) :
    (step s e).2.Returns := by
  cases e with
  | onOpen hdl => simp [step, Outcome.Returns]
  | onClose hdl => simp [step, Outcome.Returns]
  | onMessage hdl msg => simp [step, Outcome.Returns]
  | processMessages =>
      cases hactions : s.actions with
      | nil => simp [step, WebSocketServer.processMessages, hactions, Outcome.Returns]
      | cons a actions =>
          unfold Lags at h
          rw [hactions] at h
          rw [step, WebSocketServer.processMessages, hactions]
          exact (processAction_eq (s := { s with actions }) h.1).2

/-- In every run in which the transport keeps to its rules, however far `process_messages`
is behind, no action throws, and the queued actions lead from the handles of the table to
exactly the open ones; the table holds these when the queue is empty. -/
theorem queue_leads_to_open (events : List (Event η)) (h : Orderly signal events) :
    let s := run step .new events
    (∀ o ∈ trace step (.new : WebSocketServer η) events, o.Returns) ∧
      s.actions.foldl keysAfter s.connections.keys = openAfter signal events ∧
      (s.actions = [] → s.connections.keys = openAfter signal events) := by
  intro s
  have hstart : Lags (.new : WebSocketServer η) .new := rfl
  have hlags : Lags s (run (Lifecycle.step signal) .new events) :=
    h.related Lags step_lags hstart
  have hqueue : s.actions.foldl keysAfter s.connections.keys = openAfter signal events :=
    LeadsTo.foldl_eq hlags
  refine ⟨?_, hqueue, ?_⟩
  · exact h.related_outputs Lags step_lags (fun s l e hs _ => step_returns s l e hs) hstart
  · intro hempty
    rw [hempty] at hqueue
    exact hqueue

/-- Two connections, the first of which is closed while both are still queued. -/
theorem queue_leads_to_open_run :
    let events : List (Event ℕ) := [.onOpen 1, .onMessage 1 "a".toList, .onOpen 2, .onClose 1,
      .processMessages, .processMessages, .processMessages, .processMessages]
    (run step .new events).connections.keys = {2} := by
  intro events
  have hempty : (run step .new events).actions = [] := rfl
  have horderly : Orderly signal events := by
    unfold Orderly events
    simp only [Along]
    decide
  rw [(queue_leads_to_open events horderly).2.2 hempty]
  rfl

end ForexSuite.ActionQueue
