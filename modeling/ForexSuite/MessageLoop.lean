import ForexSuite.ActionQueue

/-!
# The thread of `process_messages`

The loop of the balance plugin with its condition variable: a callback queues its
action under the mutex and notifies afterwards, and the thread sleeps while there is
no action. The queue is touched only under its mutex, so what a thread does while it
holds it is one step.

The loop does what the passes of `process_messages` do one at a time, and it comes to
rest only when the queue is empty. But `stop` clears a flag that the thread reads
between two actions, and wakes nobody.
-/
namespace ForexSuite.MessageLoop

open TextNumbers EventMachine Connections
open ActionQueue (Action WebSocketServer Outcome Lags)

variable {η : Type*}

/-- Where the thread is: about to read `_keepProcessingMessages`, about to take an action under the
mutex, waiting for the condition variable, or at work. An exception ends it. -/
inductive Phase (η : Type*) where
  | reading
  | taking
  | asleep
  | processing (a : Action η)
  | returned
  | failed
deriving DecidableEq

/-- The callbacks that have queued an action and have still to notify are only counted. -/
structure State (η : Type*) where
  server : WebSocketServer η
  keepProcessingMessages : Bool
  pending : ℕ
  phase : Phase η

def State.new : State η := ⟨.new, true, 0, .reading⟩

inductive Event (η : Type*) where
  | onOpen (hdl : η)
  | onClose (hdl : η)
  | onMessage (hdl : η) (msg : Text)
  | notifyOne
  | spurious
  | stop
  | thread
deriving DecidableEq

namespace State

variable (s : State η)

def queued (server : WebSocketServer η) : State η :=
  { s with server := server, pending := s.pending + 1 }

/-- A thread that is woken up tests the queue again. -/
def wake : State η :=
  match s.phase with
  | .asleep => { s with phase := .taking }
  | _ => s

def notifyOne : State η :=
  if s.pending = 0 then s else { s with pending := s.pending - 1 }.wake

/-- `m_server.stop` apart, which does not concern the thread. -/
def stop : State η := { s with keepProcessingMessages := false }

def finish (r : WebSocketServer η × Outcome η) : State η × Outcome η :=
  match r.2 with
  | .thrown e => ({ s with server := r.1, phase := .failed }, .thrown e)
  | o => ({ s with server := r.1, phase := .reading }, o)

/-- One step of `process_messages`. -/
def thread [DecidableEq η] : State η × Outcome η :=
  match s.phase with
  | .reading =>
      ({ s with phase := if s.keepProcessingMessages then .taking else .returned }, .done)
  | .taking =>
      match s.server.actions with
      | [] => ({ s with phase := .asleep }, .done)
      | a :: actions =>
          ({ s with server := { s.server with actions := actions }, phase := .processing a }, .done)
  | .processing a => s.finish (s.server.processAction a)
  | .asleep => (s, .done)
  | .returned => (s, .done)
  | .failed => (s, .done)

end State

def step [DecidableEq η] (s : State η) : Event η → State η × Outcome η
  | .onOpen hdl => (s.queued (s.server.onOpen hdl), .done)
  | .onClose hdl => (s.queued (s.server.onClose hdl), .done)
  | .onMessage hdl msg => (s.queued (s.server.onMessage hdl msg), .done)
  | .notifyOne => (s.notifyOne, .done)
  | .spurious => (s.wake, .done)
  | .stop => (s.stop, .done)
  | .thread => s.thread

def signal : Event η → Signal η
  | .onOpen hdl => .opens hdl
  | .onClose hdl => .closes hdl
  | .onMessage hdl _ => .uses hdl
  | .notifyOne | .spurious | .stop | .thread => .none

variable {s : State η}

/-! ### Waking up -/

/-- While the thread sleeps, there is a callback about to notify for each action. -/
def Noticed (s : State η) : Prop :=
  s.phase = .asleep → s.server.actions.length ≤ s.pending

/-- The thread returns only when it was told to. -/
def Obeys (s : State η) : Prop := s.phase = .returned → s.keepProcessingMessages = false

theorem wake_phase (s : State η) : s.wake.phase ≠ .asleep := by
  cases hphase : s.phase <;> simp [State.wake, hphase]

theorem wake_noticed (s : State η) : Noticed s.wake :=
  fun hasleep => absurd hasleep (wake_phase s)

theorem wake_obeys (h : Obeys s) : Obeys s.wake := by
  cases hphase : s.phase <;> simp_all [Obeys, State.wake]

theorem wake_failed (h : s.phase ≠ .failed) : s.wake.phase ≠ .failed := by
  cases hphase : s.phase <;> simp_all [State.wake]

/-- The thread is waiting for an action, or about to. -/
def Waits (s : State η) : Prop :=
  (s.phase = .taking ∨ s.phase = .asleep) ∧ s.server.actions = []

theorem wake_waits (s : State η) : Waits s.wake ↔ Waits s := by
  cases hphase : s.phase <;> simp [Waits, State.wake, hphase]

/-- How many actions a thread that is told to stop may still end. -/
def State.allowed (s : State η) : ℕ :=
  match s.phase with
  | .taking | .asleep | .processing _ => 1
  | .reading | .returned | .failed => 0

theorem wake_allowed (s : State η) : s.wake.allowed = s.allowed := by
  cases hphase : s.phase <;> simp [State.allowed, State.wake, hphase]

theorem wake_keep (s : State η) : s.wake.keepProcessingMessages = s.keepProcessingMessages := by
  cases hphase : s.phase <;> simp [State.wake, hphase]

theorem finish_phase (s : State η) (r : WebSocketServer η × Outcome η) :
    (s.finish r).1.phase = .reading ∨ (s.finish r).1.phase = .failed := by
  cases ho : r.2 <;> simp [State.finish, ho]

/-! ### One pass at a time -/

/-- The server before the action that is being processed was taken. -/
def State.view (s : State η) : WebSocketServer η :=
  match s.phase with
  | .processing a => { s.server with actions := a :: s.server.actions }
  | _ => s.server

/-- What happens to the server at a step. The thread makes its pass when it ends an action. -/
def pass (s : State η) : Event η → List (ActionQueue.Event η)
  | .onOpen hdl => [.onOpen hdl]
  | .onClose hdl => [.onClose hdl]
  | .onMessage hdl msg => [.onMessage hdl msg]
  | .notifyOne | .spurious | .stop => []
  | .thread =>
      match s.phase with
      | .processing _ => [.processMessages]
      | _ => []

/-- The outcomes a client or the platform can notice. -/
def effect : Outcome η → List (Outcome η)
  | .waiting | .done => []
  | o => [o]

theorem queued_view (s : State η) (a : Action η) :
    (s.queued { s.server with actions := s.server.actions ++ [a] }).view =
      { s.view with actions := s.view.actions ++ [a] } := by
  cases hphase : s.phase <;> simp [State.queued, State.view, hphase]

theorem wake_view (s : State η) : s.wake.view = s.view := by
  cases hphase : s.phase <;> simp [State.wake, State.view, hphase]

theorem notifyOne_view (s : State η) : s.notifyOne.view = s.view := by
  rw [State.notifyOne]
  split_ifs
  · rfl
  · exact wake_view _

theorem finish_eq (s : State η) (r : WebSocketServer η × Outcome η) :
    (s.finish r).1.view = r.1 ∧ (s.finish r).2 = r.2 := by
  cases ho : r.2 <;> simp [State.finish, ho, State.view]

variable [DecidableEq η]

theorem pass_spec (s : State η) (e : Event η) :
    run ActionQueue.step s.view (pass s e) = (step s e).1.view ∧
      (trace ActionQueue.step s.view (pass s e)).flatMap effect = effect (step s e).2 := by
  cases e with
  | onOpen hdl => exact ⟨(queued_view s (.SUBSCRIBE hdl)).symm, rfl⟩
  | onClose hdl => exact ⟨(queued_view s (.UNSUBSCRIBE hdl)).symm, rfl⟩
  | onMessage hdl msg => exact ⟨(queued_view s (.IN_MESSAGE hdl msg)).symm, rfl⟩
  | notifyOne => exact ⟨(notifyOne_view s).symm, rfl⟩
  | spurious => exact ⟨(wake_view s).symm, rfl⟩
  | stop => exact ⟨rfl, rfl⟩
  | thread =>
      cases hphase : s.phase with
      | reading =>
          refine ⟨?_, by simp [pass, hphase, step, State.thread, effect]⟩
          cases hkeep : s.keepProcessingMessages <;>
            simp [pass, hphase, run, step, State.thread, State.view, hkeep]
      | taking =>
          have hpass : pass s .thread = [] := by simp [pass, hphase]
          rw [hpass]
          cases hactions : s.server.actions with
          | nil => simp [run, step, State.thread, hphase, State.view, hactions, effect]
          | cons a actions =>
              have hserver : { s.server with actions := a :: actions } = s.server := by
                rw [← hactions]
              simp [run, step, State.thread, hphase, State.view, hactions, effect, hserver]
      | processing a =>
          obtain ⟨hview, hout⟩ := finish_eq s (s.server.processAction a)
          have hstep : step s .thread = s.finish (s.server.processAction a) := by
            simp [step, State.thread, hphase]
          have hpass : ActionQueue.step s.view .processMessages = s.server.processAction a := by
            simp [ActionQueue.step, WebSocketServer.processMessages, State.view, hphase]
          have hone : pass s .thread = [.processMessages] := by simp [pass, hphase]
          rw [hone, hstep, run_cons, trace_cons, hpass, hview, hout]
          exact ⟨rfl, List.flatMap_singleton _ _⟩
      | asleep | returned | failed =>
          simp [pass, hphase, run, step, State.thread, effect]

def passes (s : State η) : List (Event η) → List (ActionQueue.Event η)
  | [] => []
  | e :: es => pass s e ++ passes (step s e).1 es

/-- The loop with its condition variable does what its passes do when they are made one at a time:
it leaves the same server, and sends and throws the same. -/
theorem loop_makes_passes (s : State η) (es : List (Event η)) :
    run ActionQueue.step s.view (passes s es) = (run step s es).view ∧
      (trace ActionQueue.step s.view (passes s es)).flatMap effect =
        (trace step s es).flatMap effect := by
  induction es generalizing s with
  | nil => exact ⟨rfl, rfl⟩
  | cons e es ih =>
      obtain ⟨hrun, htrace⟩ := pass_spec s e
      obtain ⟨hrest, hrest'⟩ := ih (step s e).1
      rw [passes, run_append, trace_append, hrun, List.flatMap_append, htrace, hrest, hrest']
      exact ⟨rfl, rfl⟩

/-! ### At rest -/

/-- Neither the thread nor a callback that has still to notify can take a step. -/
structure Rest (s : State η) : Prop where
  thread : (step s .thread).1 = s
  notifyOne : (step s .notifyOne).1 = s

theorem step_noticed (s : State η) (e : Event η) (h : Noticed s) : Noticed (step s e).1 := by
  have hqueued (a : Action η) :
      Noticed (s.queued { s.server with actions := s.server.actions ++ [a] }) := by
    intro hasleep
    have hlen := h hasleep
    simp only [State.queued, List.length_append, List.length_singleton]
    omega
  cases e with
  | onOpen hdl => exact hqueued (.SUBSCRIBE hdl)
  | onClose hdl => exact hqueued (.UNSUBSCRIBE hdl)
  | onMessage hdl msg => exact hqueued (.IN_MESSAGE hdl msg)
  | notifyOne =>
      simp only [step, State.notifyOne]
      split_ifs
      · exact h
      · exact wake_noticed _
  | spurious => exact wake_noticed s
  | stop => exact h
  | thread =>
      simp only [step, State.thread]
      cases hphase : s.phase with
      | reading =>
          intro hasleep
          cases hkeep : s.keepProcessingMessages <;> simp [hkeep] at hasleep
      | taking =>
          cases hactions : s.server.actions with
          | nil =>
              intro _
              simp [hactions]
          | cons a actions => exact nofun
      | processing a =>
          intro hasleep
          rcases finish_phase s (s.server.processAction a) with hnext | hnext <;>
            · rw [hnext] at hasleep
              cases hasleep
      | asleep | returned | failed => exact h

theorem step_obeys (s : State η) (e : Event η) (h : Obeys s) : Obeys (step s e).1 := by
  cases e with
  | onOpen hdl | onClose hdl | onMessage hdl msg => exact h
  | notifyOne =>
      simp only [step, State.notifyOne]
      split_ifs
      · exact h
      · exact wake_obeys (s := { s with pending := s.pending - 1 }) h
  | spurious => exact wake_obeys h
  | stop => exact fun _ => rfl
  | thread =>
      simp only [step, State.thread]
      cases hphase : s.phase with
      | reading => cases hkeep : s.keepProcessingMessages <;> simp [Obeys]
      | taking =>
          cases hactions : s.server.actions <;> exact nofun
      | processing a =>
          intro hret
          rcases finish_phase s (s.server.processAction a) with hnext | hnext <;>
            · rw [hnext] at hret
              cases hret
      | asleep | returned | failed => exact h

theorem Rest.pending (h : Rest s) : s.pending = 0 := by
  by_contra hpending
  have hsame := congrArg State.pending h.notifyOne
  simp only [step, State.notifyOne, if_neg hpending] at hsame
  have hwake : ({ s with pending := s.pending - 1 } : State η).wake.pending = s.pending - 1 := by
    cases hphase : s.phase <;> simp [State.wake]
  omega

theorem Rest.phase (h : Rest s) : s.phase = .asleep ∨ s.phase = .returned ∨ s.phase = .failed := by
  have hsame := congrArg State.phase h.thread
  simp only [step, State.thread] at hsame
  cases hphase : s.phase with
  | reading =>
      rw [hphase] at hsame
      cases hkeep : s.keepProcessingMessages <;> simp [hkeep] at hsame
  | taking =>
      rw [hphase] at hsame
      cases hactions : s.server.actions <;> simp [hactions] at hsame
  | processing a =>
      rw [hphase] at hsame
      rcases finish_phase s (s.server.processAction a) with hnext | hnext <;>
        · rw [hnext] at hsame
          cases hsame
  | asleep => exact Or.inl rfl
  | returned => exact Or.inr (Or.inl rfl)
  | failed => exact Or.inr (Or.inr rfl)

/-! ### The table -/

theorem step_lags {l : Lifecycle η} (h : Lags s.view l) (e : Event η)
    (hp : l.Permits (signal e)) : Lags (step s e).1.view (l.after (signal e)) := by
  rw [← (pass_spec s e).1]
  cases e with
  | onOpen hdl => exact ActionQueue.step_lags s.view l (.onOpen hdl) h hp
  | onClose hdl => exact ActionQueue.step_lags s.view l (.onClose hdl) h hp
  | onMessage hdl msg => exact ActionQueue.step_lags s.view l (.onMessage hdl msg) h hp
  | notifyOne | spurious | stop => exact h
  | thread =>
      have hthread : pass s .thread = [] ∨ pass s .thread = [.processMessages] := by
        cases hphase : s.phase <;> simp [pass, hphase]
      rcases hthread with hpass | hpass
      · rw [hpass]
        exact h
      · rw [hpass]
        exact ActionQueue.step_lags s.view l .processMessages h trivial

/-- An action that finds its handle does not end the thread. -/
theorem step_alive {l : Lifecycle η} (h : Lags s.view l) (halive : s.phase ≠ .failed)
    (e : Event η) : (step s e).1.phase ≠ .failed := by
  cases e with
  | onOpen hdl | onClose hdl | onMessage hdl msg | stop => exact halive
  | notifyOne =>
      simp only [step, State.notifyOne]
      split_ifs
      · exact halive
      · exact wake_failed (s := { s with pending := s.pending - 1 }) halive
  | spurious => exact wake_failed halive
  | thread =>
      simp only [step, State.thread]
      cases hphase : s.phase with
      | processing a =>
          have hreturns := ActionQueue.step_returns s.view l .processMessages h
          have hpass : ActionQueue.step s.view .processMessages = s.server.processAction a := by
            simp [ActionQueue.step, WebSocketServer.processMessages, State.view, hphase]
          rw [hpass] at hreturns
          simp only [State.finish]
          cases ho : (s.server.processAction a).2 with
          | thrown x => exact absurd ho (hreturns x)
          | waiting | done | sentToAll hdls outMsg => simp
      | reading => cases hkeep : s.keepProcessingMessages <;> simp
      | taking => cases hactions : s.server.actions <;> simp
      | asleep | returned => simp [hphase]
      | failed => exact absurd hphase halive

/-- The actions lead from the table to the open handles, and no action has thrown. -/
def Serves (s : State η) (l : Lifecycle η) : Prop := Lags s.view l ∧ s.phase ≠ .failed

/-- When a server that was not stopped comes to rest, and the transport keeps to its rules, then
no action is left, and the table holds exactly the open connections. -/
theorem table_at_rest (es : List (Event η)) (h : Orderly signal es)
    (hkeep : (run step (.new : State η) es).keepProcessingMessages = true)
    (hrest : Rest (run step .new es)) :
    (run step (.new : State η) es).server.actions = [] ∧
      (run step (.new : State η) es).server.connections.keys = openAfter signal es := by
  have hserves : Serves (run step .new es) (run (Lifecycle.step signal) .new es) :=
    h.related Serves (fun s l e hs hp => ⟨step_lags hs.1 e hp, step_alive hs.1 hs.2 e⟩)
      ⟨rfl, nofun⟩
  have hasleep : (run step (.new : State η) es).phase = .asleep := by
    rcases hrest.phase with hphase | hphase | hphase
    · exact hphase
    · have hstopped := run_invariant Obeys step_obeys (s := .new) nofun es hphase
      rw [hkeep] at hstopped
      cases hstopped
    · exact absurd hphase hserves.2
  have hactions : (run step (.new : State η) es).server.actions = [] := by
    have hlen := run_invariant Noticed step_noticed (s := .new) nofun es hasleep
    rw [hrest.pending] at hlen
    exact List.length_eq_zero_iff.mp (Nat.le_zero.mp hlen)
  refine ⟨hactions, ?_⟩
  have hlags := hserves.1
  have hview : (run step (.new : State η) es).view = (run step .new es).server := by
    rw [State.view, hasleep]
  rw [hview, Lags, hactions] at hlags
  exact hlags

/-- A connection is opened while the thread sleeps. -/
def oneOpen : List (Event ℕ) :=
  [.thread, .thread, .onOpen 1, .notifyOne, .thread, .thread, .thread, .thread]

theorem table_at_rest_oneOpen :
    (run step .new oneOpen).server.actions = [] ∧
      (run step .new oneOpen).server.connections.keys = openAfter signal oneOpen := by
  refine table_at_rest oneOpen ?_ rfl ⟨rfl, rfl⟩
  unfold Orderly oneOpen
  simp only [Along]
  decide

/-! ### Stopping -/

def Ended (s : State η) : Prop := s.phase = .returned ∨ s.phase = .failed

/-- What may happen when no callback comes: steps of the thread and of callbacks that have still to
notify, spurious wake-ups, and further calls of `stop`. -/
def Internal (e : Event η) : Prop := signal e = .none

/-- A loop that is told to stop goes on waiting. -/
theorem step_waits (hkeep : s.keepProcessingMessages = false) (e : Event η) (he : Internal e) :
    (step s e).1.keepProcessingMessages = false ∧ (Waits (step s e).1 ↔ Waits s) := by
  cases e with
  | onOpen hdl | onClose hdl | onMessage hdl msg => cases he
  | thread =>
      simp only [step, State.thread]
      cases hphase : s.phase with
      | reading => simp [hkeep, Waits, hphase]
      | taking => cases hactions : s.server.actions <;> simp [hkeep, Waits, hphase, hactions]
      | processing a =>
          have hnext := finish_phase s (s.server.processAction a)
          refine ⟨?_, ?_⟩
          · cases ho : (s.server.processAction a).2 <;> simp [State.finish, ho, hkeep]
          · rcases hnext with hnext | hnext <;> simp [Waits, hnext, hphase]
      | asleep | returned | failed => exact ⟨hkeep, Iff.rfl⟩
  | notifyOne =>
      simp only [step, State.notifyOne]
      split_ifs
      · exact ⟨hkeep, Iff.rfl⟩
      · exact ⟨(wake_keep _).trans hkeep, wake_waits { s with pending := s.pending - 1 }⟩
  | spurious => exact ⟨(wake_keep s).trans hkeep, wake_waits s⟩
  | stop => exact ⟨rfl, Iff.rfl⟩

theorem run_waits (hkeep : s.keepProcessingMessages = false) (es : List (Event η))
    (hes : ∀ e ∈ es, Internal e) : Waits (run step s es) ↔ Waits s := by
  induction es generalizing s with
  | nil => exact Iff.rfl
  | cons e es ih =>
      obtain ⟨he, hrest⟩ := List.forall_mem_cons.mp hes
      obtain ⟨hnext, hwaits⟩ := step_waits hkeep e he
      exact (ih hnext hrest).trans hwaits

/-- After a call of `stop`, when no callback comes any more and everything has come to rest, the
thread has ended if and only if it was not waiting for an action, or about to, when it was
called. -/
theorem stop_ends_iff (es fs : List (Event η)) (hfs : ∀ f ∈ fs, Internal f)
    (hrest : Rest (run step .new (es ++ .stop :: fs))) :
    Ended (run step (.new : State η) (es ++ .stop :: fs)) ↔
      ¬ Waits (run step (.new : State η) es) := by
  have hnoticed := run_invariant Noticed step_noticed (s := .new) nofun (es ++ .stop :: fs)
  have hwaits : Waits (run step (.new : State η) (es ++ .stop :: fs)) ↔
      Waits (run step (.new : State η) es) := by
    rw [run_append, run_cons]
    exact run_waits rfl fs hfs
  rw [← hwaits]
  generalize run step (.new : State η) (es ++ .stop :: fs) = s at hrest hnoticed
  constructor
  · rintro (hphase | hphase) ⟨hwait, -⟩ <;>
      simp [hphase] at hwait
  · intro hnot
    apply hrest.phase.resolve_left
    intro hasleep
    have hlen := hnoticed hasleep
    rw [hrest.pending] at hlen
    exact hnot ⟨Or.inr hasleep, List.length_eq_zero_iff.mp (Nat.le_zero.mp hlen)⟩

/-- A loop that was stopped while its thread slept, which wakes up once more. -/
theorem stop_ends_iff_asleep :
    Ended (run step (.new : State ℕ) ([.thread, .thread] ++ .stop :: [.spurious, .thread])) ↔
      ¬ Waits (run step (.new : State ℕ) [.thread, .thread]) :=
  stop_ends_iff [.thread, .thread] [.spurious, .thread] (by simp [Internal, signal]) ⟨rfl, rfl⟩

def isPass : ActionQueue.Event η → Bool
  | .processMessages => true
  | _ => false

theorem step_allowed (hkeep : s.keepProcessingMessages = false) (e : Event η) :
    (step s e).1.keepProcessingMessages = false ∧
      (pass s e).countP isPass + (step s e).1.allowed ≤ s.allowed := by
  cases e with
  | onOpen hdl | onClose hdl | onMessage hdl msg =>
      exact ⟨hkeep, (Nat.zero_add _).le⟩
  | stop => exact ⟨rfl, (Nat.zero_add _).le⟩
  | spurious =>
      exact ⟨(wake_keep s).trans hkeep, ((Nat.zero_add _).trans (wake_allowed s)).le⟩
  | notifyOne =>
      simp only [step, State.notifyOne]
      split_ifs
      · exact ⟨hkeep, (Nat.zero_add _).le⟩
      · exact ⟨(wake_keep _).trans hkeep, ((Nat.zero_add _).trans (wake_allowed _)).le⟩
  | thread =>
      cases hphase : s.phase with
      | reading => simp [step, State.thread, pass, State.allowed, hphase, hkeep]
      | taking =>
          cases hactions : s.server.actions <;>
            simp [step, State.thread, pass, State.allowed, hphase, hactions, hkeep]
      | processing a =>
          have hstep : step s .thread = s.finish (s.server.processAction a) := by
            simp [step, State.thread, hphase]
          have hnext := finish_phase s (s.server.processAction a)
          rw [hstep]
          refine ⟨?_, ?_⟩
          · cases ho : (s.server.processAction a).2 <;> simp [State.finish, ho, hkeep]
          · rcases hnext with hnext | hnext <;>
              simp [pass, State.allowed, hphase, hnext, isPass]
      | asleep | returned | failed =>
          simp [step, State.thread, pass, State.allowed, hphase, hkeep]

/-- After a call of `stop` the thread ends one more action at most, however many are queued. -/
theorem one_pass_after_stop (es fs : List (Event η)) :
    (passes (run step .new (es ++ [.stop])) fs).countP isPass ≤ 1 := by
  have hrun (s : State η) (hkeep : s.keepProcessingMessages = false) :
      (passes s fs).countP isPass ≤ s.allowed := by
    induction fs generalizing s with
    | nil => exact Nat.zero_le _
    | cons e fs ih =>
        obtain ⟨hnext, hallowed⟩ := step_allowed hkeep e
        have hrest := ih _ hnext
        rw [passes, List.countP_append]
        omega
  have hallowed (s : State η) : s.allowed ≤ 1 := by
    rw [State.allowed]
    split <;> omega
  apply (hrun _ _).trans (hallowed _)
  rw [run_append]
  rfl

end ForexSuite.MessageLoop
