import Mathlib.Algebra.BigOperators.Group.List.Basic
import ForexSuite.EventMachine

/-!
# The thread pool

The pool of `ctpl_stl.h` as a machine that takes one step of one party at a time:
a worker thread, a call of `push` that has queued its functor and has still to
notify, or the thread that calls `resize`, `stop` and `clear_queue`. Any order of
these steps is a run. As the header asks, calls of the last kind do not overlap.

A step is one access to something the parties share. The queue has a mutex of its
own, so `push`, `pop` and `empty` of it are single steps; the mutex of the pool is
held over several steps by a worker that evaluates the predicate of `wait`. A
sleeping worker may also wake up without a notification.
-/
namespace ForexSuite.ThreadPool

open EventMachine

variable {τ : Type*}

/-- Where a worker is in the loop of `set_thread`. It holds the mutex of the pool while it is
`testing`, `readsDone` or `readsFlag`, which are the three operands of the predicate. -/
inductive Phase (τ : Type*) where
  | popping
  | running (f : τ)
  | idle
  | testing
  | readsDone
  | readsFlag
  | asleep
  | notified
  | returned
deriving Repr, DecidableEq

/-- A thread that was started: the index it hands to every functor, its own copy of the
pointer to its flag, and where it is. -/
structure Worker (τ : Type*) where
  index : ℕ
  flag : Bool
  phase : Phase τ
deriving Repr, DecidableEq

/-- Where the calling thread is in `resize`, `stop` or `clear_queue`. The numbers are the loop
variables, and the bound of `resize`. -/
inductive Caller where
  | outside
  | growing (nThreads : ℕ)
  | detaching (i nThreads : ℕ)
  | wakingDetached (nThreads : ℕ)
  | shrinking (nThreads : ℕ)
  | flagging (i : ℕ)
  | clearing
  | waking
  | joining (i : ℕ)
  | clearingRest
  | clearingQueue
deriving Repr, DecidableEq

/-- What the workers see of a pool. `workers` are all threads ever started. A call of `push`
whose functor is queued and that has not yet notified is `pending`. -/
structure Shared (τ : Type*) where
  workers : List (Worker τ)
  q : List τ
  isDone : Bool
  nWaiting : ℤ
  mutex : Option ℕ
  pending : List τ
deriving Repr, DecidableEq

/-- `threads` are the positions in `workers` of the threads that the pool owns. -/
structure State (τ : Type*) extends Shared τ where
  threads : List ℕ
  isStop : Bool
  caller : Caller
deriving Repr, DecidableEq

/-- The constructor without arguments. -/
def init : State τ := ⟨⟨[], [], false, 0, none, []⟩, [], false, .outside⟩

inductive Call where
  | resize (nThreads : ℕ)
  | stop (isWait : Bool)
  | clearQueue
deriving Repr, DecidableEq

/-- `notifyOne` finishes the `k`-th pending push and wakes worker `i`, `spurious` wakes worker
`i` without a reason. -/
inductive Event (τ : Type*) where
  | push (f : τ)
  | notifyOne (k i : ℕ)
  | worker (i : ℕ)
  | spurious (i : ℕ)
  | call (c : Call)
  | caller
  | pop
deriving Repr, DecidableEq

/-- What a step did with a functor. The first number is the position of the worker, the second
the index it hands to the functor. -/
inductive Output (τ : Type*) where
  | silent
  | started (worker index : ℕ) (f : τ)
  | finished (worker index : ℕ) (f : τ)
  | deleted (f : τ)
  | popped (f : τ)
deriving Repr, DecidableEq

/-- The functor that an event adds to the queue. -/
def Event.pushed : Event τ → List τ
  | .push f => [f]
  | _ => []

def Phase.isAsleep : Phase τ → Bool
  | .asleep => true
  | _ => false

def Phase.hasReturned : Phase τ → Bool
  | .returned => true
  | _ => false

/-- Worker `i`, which is `w`, goes on to `phase`. -/
def Shared.move (s : Shared τ) (i : ℕ) (w : Worker τ) (phase : Phase τ) : Shared τ :=
  { s with workers := s.workers.set i { w with phase := phase } }

/-- The end of `wait` with a true predicate, and of the scope of its lock. -/
def Shared.leave (s : Shared τ) (i : ℕ) (w : Worker τ) (phase : Phase τ) : Shared τ :=
  { s with nWaiting := s.nWaiting - 1, mutex := none }.move i w phase

section Fields

variable (s : Shared τ) (i : ℕ) (w : Worker τ) (phase : Phase τ)

@[simp] theorem move_q : (s.move i w phase).q = s.q := rfl

@[simp] theorem move_pending : (s.move i w phase).pending = s.pending := rfl

@[simp] theorem move_isDone : (s.move i w phase).isDone = s.isDone := rfl

@[simp] theorem leave_q : (s.leave i w phase).q = s.q := rfl

@[simp] theorem leave_pending : (s.leave i w phase).pending = s.pending := rfl

@[simp] theorem leave_isDone : (s.leave i w phase).isDone = s.isDone := rfl

end Fields

def setThread (s : Shared τ) (i : ℕ) (w : Worker τ) : Shared τ × Output τ :=
  match w.phase with
  | .popping =>
      match s.q with
      | [] => (s.move i w .idle, .silent)
      | f :: q => ({ s with q := q }.move i w (.running f), .started i w.index f)
  | .running f =>
      (s.move i w (if w.flag then .returned else .popping), .finished i w.index f)
  | .idle =>
      if s.mutex = none then
        ({ s with mutex := some i, nWaiting := s.nWaiting + 1 }.move i w .testing, .silent)
      else (s, .silent)
  | .testing =>
      match s.q with
      | [] => (s.move i w .readsDone, .silent)
      | f :: q => ({ s with q := q }.leave i w (.running f), .started i w.index f)
  | .readsDone =>
      (if s.isDone then s.leave i w .returned else s.move i w .readsFlag, .silent)
  | .readsFlag =>
      (if w.flag then s.leave i w .returned else { s with mutex := none }.move i w .asleep, .silent)
  | .notified =>
      if s.mutex = none then ({ s with mutex := some i }.move i w .testing, .silent)
      else (s, .silent)
  | .asleep => (s, .silent)
  | .returned => (s, .silent)

def Worker.wake (w : Worker τ) : Worker τ :=
  if w.phase.isAsleep then { w with phase := .notified } else w

def Shared.notifyAll (s : Shared τ) : Shared τ := { s with workers := s.workers.map Worker.wake }

/-- `notify_one` wakes a sleeping worker if there is one. -/
def Shared.notifyOne (s : Shared τ) (k i : ℕ) : Shared τ :=
  if s.mutex = none ∧ k < s.pending.length then
    if s.workers.any fun w => w.phase.isAsleep then
      match s.workers[i]? with
      | none => s
      | some w =>
          if w.phase.isAsleep then
            { s with pending := s.pending.eraseIdx k }.move i w .notified
          else s
    else { s with pending := s.pending.eraseIdx k }
  else s

def Shared.spurious (s : Shared τ) (i : ℕ) : Shared τ :=
  match s.workers[i]? with
  | none => s
  | some w => if w.phase.isAsleep then s.move i w .notified else s

def Shared.push (s : Shared τ) (f : τ) : Shared τ :=
  { s with q := s.q ++ [f], pending := s.pending ++ [f] }

def Shared.spawn (s : Shared τ) (index : ℕ) : Shared τ :=
  { s with workers := s.workers ++ [⟨index, false, .popping⟩] }

def Shared.raiseFlag (s : Shared τ) (i : ℕ) : Shared τ :=
  { s with workers := s.workers.modify i fun w => { w with flag := true } }

/-- `*this->flags[k] = true`. -/
def State.raiseFlag (s : State τ) (k : ℕ) : State τ :=
  match s.threads[k]? with
  | none => s
  | some i => { s with toShared := s.toShared.raiseFlag i }

def State.hasReturned (s : State τ) (k : ℕ) : Bool :=
  match s.threads[k]? with
  | none => false
  | some i => s.workers[i]?.any fun w => w.phase.hasReturned

/-- The loop body of `resize` that starts a thread. -/
def State.spawn (s : State τ) : State τ :=
  { s with
    toShared := s.toShared.spawn s.threads.length
    threads := s.threads ++ [s.workers.length] }

/-- One step of `clear_queue`, after which the caller goes on as in `next`. -/
def clearQueue (s next : State τ) : State τ × Output τ :=
  match s.q with
  | [] => (next, .silent)
  | f :: q => ({ s with q := q }, .deleted f)

/-- `cv.notify_all` under the mutex, after which the caller is at `next`. -/
def notifyAll (s : State τ) (next : Caller) : State τ :=
  if s.mutex = none then { s with toShared := s.toShared.notifyAll, caller := next } else s

/-- One step of the thread that is in `resize`, `stop` or `clear_queue`. -/
def resume (s : State τ) : State τ × Output τ :=
  match s.caller with
  | .outside => (s, .silent)
  | .growing nThreads =>
      (if s.threads.length < nThreads then s.spawn else { s with caller := .outside }, .silent)
  | .detaching i nThreads =>
      (if nThreads < i then
          { s.raiseFlag (i - 1) with caller := .detaching (i - 1) nThreads }
        else { s with caller := .wakingDetached nThreads }, .silent)
  | .wakingDetached nThreads => (notifyAll s (.shrinking nThreads), .silent)
  | .shrinking nThreads =>
      ({ s with threads := s.threads.take nThreads, caller := .outside }, .silent)
  | .flagging i =>
      (if i < s.threads.length then { s.raiseFlag i with caller := .flagging (i + 1) }
        else { s with caller := .clearing }, .silent)
  | .clearing => clearQueue s { s with caller := .waking }
  | .waking => (notifyAll s (.joining 0), .silent)
  | .joining i =>
      (if i < s.threads.length then
          if s.hasReturned i then { s with caller := .joining (i + 1) } else s
        else { s with caller := .clearingRest }, .silent)
  | .clearingRest => clearQueue s { s with threads := [], caller := .outside }
  | .clearingQueue => clearQueue s { s with caller := .outside }

/-- The beginning of a call, up to its first loop. -/
def begin (s : State τ) : Call → State τ
  | .resize nThreads =>
      if !s.isStop && !s.isDone then
        if s.threads.length ≤ nThreads then { s with caller := .growing nThreads }
        else { s with caller := .detaching s.threads.length nThreads }
      else s
  | .stop false => if s.isStop then s else { s with isStop := true, caller := .flagging 0 }
  | .stop true => if s.isDone || s.isStop then s else { s with isDone := true, caller := .waking }
  | .clearQueue => { s with caller := .clearingQueue }

def step (s : State τ) : Event τ → State τ × Output τ
  | .push f => ({ s with toShared := s.toShared.push f }, .silent)
  | .notifyOne k i => ({ s with toShared := s.toShared.notifyOne k i }, .silent)
  | .worker i =>
      match s.workers[i]? with
      | none => (s, .silent)
      | some w =>
          ({ s with toShared := (setThread s.toShared i w).1 }, (setThread s.toShared i w).2)
  | .spurious i => ({ s with toShared := s.toShared.spurious i }, .silent)
  | .call c => (if s.caller = .outside then begin s c else s, .silent)
  | .caller => resume s
  | .pop =>
      match s.q with
      | [] => (s, .silent)
      | f :: q => ({ s with q := q }, .popped f)

/-! ### What a step can do -/

/-- The steps of worker `i`, which is `w`. -/
inductive WorkerStep (s : Shared τ) (i : ℕ) (w : Worker τ) : Shared τ → Output τ → Prop
  | take (f : τ) (q : List τ) (hphase : w.phase = .popping) (hq : s.q = f :: q) :
      WorkerStep s i w ({ s with q := q }.move i w (.running f)) (.started i w.index f)
  | miss (hphase : w.phase = .popping) (hq : s.q = []) : WorkerStep s i w (s.move i w .idle) .silent
  | finish (f : τ) (hphase : w.phase = .running f) :
      WorkerStep s i w (s.move i w (if w.flag then .returned else .popping))
        (.finished i w.index f)
  | lock (hphase : w.phase = .idle) (hmutex : s.mutex = none) :
      WorkerStep s i w
        ({ s with mutex := some i, nWaiting := s.nWaiting + 1 }.move i w .testing) .silent
  | relock (hphase : w.phase = .notified) (hmutex : s.mutex = none) :
      WorkerStep s i w ({ s with mutex := some i }.move i w .testing) .silent
  | takeLocked (f : τ) (q : List τ) (hphase : w.phase = .testing) (hq : s.q = f :: q) :
      WorkerStep s i w ({ s with q := q }.leave i w (.running f)) (.started i w.index f)
  | missLocked (hphase : w.phase = .testing) (hq : s.q = []) :
      WorkerStep s i w (s.move i w .readsDone) .silent
  | done (hphase : w.phase = .readsDone) (hdone : s.isDone = true) :
      WorkerStep s i w (s.leave i w .returned) .silent
  | notDone (hphase : w.phase = .readsDone) (hdone : s.isDone = false) :
      WorkerStep s i w (s.move i w .readsFlag) .silent
  | flagged (hphase : w.phase = .readsFlag) (hflag : w.flag = true) :
      WorkerStep s i w (s.leave i w .returned) .silent
  | sleep (hphase : w.phase = .readsFlag) (hflag : w.flag = false) :
      WorkerStep s i w ({ s with mutex := none }.move i w .asleep) .silent
  | wait (hwait : w.phase = .asleep ∨ w.phase = .returned ∨
        s.mutex ≠ none ∧ (w.phase = .idle ∨ w.phase = .notified)) : WorkerStep s i w s .silent

theorem setThread_step (s : Shared τ) (i : ℕ) (w : Worker τ) :
    WorkerStep s i w (setThread s i w).1 (setThread s i w).2 := by
  cases hphase : w.phase with
  | popping =>
      cases hq : s.q with
      | nil =>
          simp only [setThread, hphase, hq]
          exact .miss hphase hq
      | cons f q =>
          simp only [setThread, hphase, hq]
          exact .take f q hphase hq
  | running f =>
      simp only [setThread, hphase]
      exact .finish f hphase
  | idle =>
      by_cases hmutex : s.mutex = none
      · simp only [setThread, hphase, if_pos hmutex]
        exact .lock hphase hmutex
      · simp only [setThread, hphase, if_neg hmutex]
        exact .wait (Or.inr (Or.inr ⟨hmutex, Or.inl hphase⟩))
  | testing =>
      cases hq : s.q with
      | nil =>
          simp only [setThread, hphase, hq]
          exact .missLocked hphase hq
      | cons f q =>
          simp only [setThread, hphase, hq]
          exact .takeLocked f q hphase hq
  | readsDone =>
      cases hdone : s.isDone with
      | true =>
          simp only [setThread, hphase, hdone]
          exact .done hphase hdone
      | false =>
          simp only [setThread, hphase, hdone]
          exact .notDone hphase hdone
  | readsFlag =>
      cases hflag : w.flag with
      | true =>
          simp only [setThread, hphase, hflag]
          exact .flagged hphase hflag
      | false =>
          simp only [setThread, hphase, hflag]
          exact .sleep hphase hflag
  | notified =>
      by_cases hmutex : s.mutex = none
      · simp only [setThread, hphase, if_pos hmutex]
        exact .relock hphase hmutex
      · simp only [setThread, hphase, if_neg hmutex]
        exact .wait (Or.inr (Or.inr ⟨hmutex, Or.inr hphase⟩))
  | asleep =>
      simp only [setThread, hphase]
      exact .wait (Or.inl hphase)
  | returned =>
      simp only [setThread, hphase]
      exact .wait (Or.inr (Or.inl hphase))

/-- What any step may do to the shared part, with the functors it adds to the queue and its
output. -/
inductive SharedStep (s : Shared τ) : List τ → Shared τ → Output τ → Prop
  | none : SharedStep s [] s .silent
  | push (f : τ) : SharedStep s [f] (s.push f) .silent
  | dequeue (f : τ) (q : List τ) (o : Output τ) (hq : s.q = f :: q)
      (ho : o = .deleted f ∨ o = .popped f) : SharedStep s [] { s with q := q } o
  | setDone : SharedStep s [] { s with isDone := true } .silent
  | spawn (index : ℕ) : SharedStep s [] (s.spawn index) .silent
  | raiseFlag (i : ℕ) : SharedStep s [] (s.raiseFlag i) .silent
  | notifyAll (hmutex : s.mutex = none) : SharedStep s [] s.notifyAll .silent
  | notifyOne (k i : ℕ) (w : Worker τ) (hmutex : s.mutex = none) (hk : k < s.pending.length)
      (hw : s.workers[i]? = some w) (hphase : w.phase = .asleep) :
      SharedStep s [] ({ s with pending := s.pending.eraseIdx k }.move i w .notified) .silent
  | notifyNobody (k : ℕ) (hmutex : s.mutex = none)
      (hnone : ∀ w ∈ s.workers, w.phase ≠ .asleep) :
      SharedStep s [] { s with pending := s.pending.eraseIdx k } .silent
  | spurious (i : ℕ) (w : Worker τ) (hw : s.workers[i]? = some w) (hphase : w.phase = .asleep) :
      SharedStep s [] (s.move i w .notified) .silent
  | worker (i : ℕ) (w : Worker τ) (s' : Shared τ) (o : Output τ) (hw : s.workers[i]? = some w)
      (hstep : WorkerStep s i w s' o) : SharedStep s [] s' o

theorem Phase.isAsleep_iff {p : Phase τ} : p.isAsleep = true ↔ p = .asleep := by
  cases p <;> simp [Phase.isAsleep]

theorem Phase.hasReturned_iff {p : Phase τ} : p.hasReturned = true ↔ p = .returned := by
  cases p <;> simp [Phase.hasReturned]

theorem notifyOne_step (s : Shared τ) (k i : ℕ) : SharedStep s [] (s.notifyOne k i) .silent := by
  rw [Shared.notifyOne]
  split_ifs with hfree hany
  · split
    · exact .none
    · next w hw =>
        split_ifs with hphase
        · exact .notifyOne k i w hfree.1 hfree.2 hw (Phase.isAsleep_iff.mp hphase)
        · exact .none
  · apply SharedStep.notifyNobody k hfree.1
    intro w hw hphase
    exact hany (List.any_eq_true.mpr ⟨w, hw, Phase.isAsleep_iff.mpr hphase⟩)
  · exact .none

theorem spurious_step (s : Shared τ) (i : ℕ) : SharedStep s [] (s.spurious i) .silent := by
  rw [Shared.spurious]
  split
  · exact .none
  · next w hw =>
      split_ifs with hphase
      · exact .spurious i w hw (Phase.isAsleep_iff.mp hphase)
      · exact .none

theorem clearQueue_step (s next : State τ) (hnext : next.toShared = s.toShared) :
    SharedStep s.toShared [] (clearQueue s next).1.toShared (clearQueue s next).2 := by
  cases hq : s.q with
  | nil =>
      simp only [clearQueue, hq, hnext]
      exact .none
  | cons f q =>
      simp only [clearQueue, hq]
      exact .dequeue f q _ hq (Or.inl rfl)

theorem notifyAll_step (s : State τ) (next : Caller) :
    SharedStep s.toShared [] (notifyAll s next).toShared .silent := by
  rw [ThreadPool.notifyAll]
  split_ifs with hmutex
  · exact .notifyAll hmutex
  · exact .none

theorem State.raiseFlag_step (s : State τ) (k : ℕ) :
    SharedStep s.toShared [] (s.raiseFlag k).toShared .silent := by
  rw [State.raiseFlag]
  split
  · exact .none
  · exact .raiseFlag _

theorem resume_step (s : State τ) :
    SharedStep s.toShared [] (resume s).1.toShared (resume s).2 := by
  cases hcaller : s.caller with
  | outside | shrinking nThreads =>
      simp only [resume, hcaller]
      exact .none
  | growing nThreads =>
      simp only [resume, hcaller]
      split_ifs
      · exact .spawn _
      · exact .none
  | detaching i nThreads =>
      simp only [resume, hcaller]
      split_ifs
      · exact s.raiseFlag_step (i - 1)
      · exact .none
  | flagging i =>
      simp only [resume, hcaller]
      split_ifs
      · exact s.raiseFlag_step i
      · exact .none
  | joining i =>
      simp only [resume, hcaller]
      split_ifs <;> exact .none
  | wakingDetached nThreads | waking =>
      simp only [resume, hcaller]
      exact notifyAll_step s _
  | clearing | clearingRest | clearingQueue =>
      simp only [resume, hcaller]
      exact clearQueue_step s _ rfl

theorem begin_step (s : State τ) (c : Call) :
    SharedStep s.toShared [] (begin s c).toShared .silent := by
  cases c with
  | resize nThreads =>
      simp only [begin]
      split_ifs <;> exact .none
  | stop isWait =>
      cases isWait with
      | false =>
          simp only [begin]
          split_ifs <;> exact .none
      | true =>
          simp only [begin]
          split_ifs
          · exact .none
          · exact .setDone
  | clearQueue => exact .none

theorem step_shared (s : State τ) (e : Event τ) :
    SharedStep s.toShared e.pushed (step s e).1.toShared (step s e).2 := by
  cases e with
  | push f => exact .push f
  | notifyOne k i => exact notifyOne_step s.toShared k i
  | worker i =>
      simp only [step]
      cases hw : s.workers[i]? with
      | none => exact .none
      | some w => exact .worker i w _ _ hw (setThread_step s.toShared i w)
  | spurious i => exact spurious_step s.toShared i
  | call c =>
      simp only [step]
      split_ifs
      · exact begin_step s c
      · exact .none
  | caller => exact resume_step s
  | pop =>
      simp only [step]
      cases hq : s.q with
      | nil => exact .none
      | cons f q => exact .dequeue f q _ hq (Or.inr rfl)

end ForexSuite.ThreadPool
