import ForexSuite.ThreadPoolCalls
import Mathlib.Data.Prod.Lex

/-!
# The pool comes to rest

Without new pushes and calls the workers, the caller and the pushes under way can
take finitely many steps only, in whatever order. When none of them can move any
more, the call has come to its end, and the queue is empty unless there is no worker
left: no call of `stop` hangs, and no functor is forgotten by sleeping workers.
-/
namespace ForexSuite.ThreadPool

open EventMachine ListUpdates

variable {τ : Type*} {s s' : Shared τ} {fs : List τ} {o : Output τ} {p : State τ}

/-! ### When nothing can move -/

/-- Neither a worker, nor the caller, nor a push that is under way can take a step. -/
structure Stuck (p : State τ) : Prop where
  worker : ∀ i, (step p (.worker i)).1 = p
  caller : (step p .caller).1 = p
  push : ∀ k i, (step p (.notifyOne k i)).1 = p

theorem move_ne {i : ℕ} {w : Worker τ} {f : Phase τ} (hw : s.workers[i]? = some w)
    (hf : f ≠ w.phase) (hs : s'.workers = s.workers.set i { w with phase := f }) : s' ≠ s := by
  rintro rfl
  have hget := congrArg (·[i]?) hs
  simp only [hw, getElem?_set_of_eq_some hw, Option.some_inj] at hget
  exact hf (congrArg Worker.phase hget).symm

/-- A worker that cannot move sleeps, is gone, or waits for the mutex. -/
theorem WorkerStep.of_eq {i : ℕ} {w : Worker τ} (h : WorkerStep s i w s' o)
    (hw : s.workers[i]? = some w) (heq : s' = s) :
    w.phase = .asleep ∨ w.phase = .returned ∨
      s.mutex ≠ none ∧ (w.phase = .idle ∨ w.phase = .notified) := by
  have hgo {f : Phase τ} (hf : f ≠ w.phase)
      (hset : s'.workers = s.workers.set i { w with phase := f }) : False :=
    move_ne hw hf hset heq
  cases h with
  | wait hwait => exact hwait
  | finish f hphase =>
      exfalso
      apply hgo _ rfl
      rw [hphase]
      split_ifs <;> nofun
  | take f q hphase hq | takeLocked f q hphase hq | miss hphase hq | missLocked hphase hq
  | lock hphase hmutex | relock hphase hmutex | done hphase hdone | notDone hphase hdone
  | flagged hphase hflag | sleep hphase hflag =>
      exact (hgo (by rw [hphase]; nofun) rfl).elim

theorem Stuck.worker_eq (h : Stuck p) {i : ℕ} {w : Worker τ} (hw : p.workers[i]? = some w) :
    w.phase = .asleep ∨ w.phase = .returned ∨
      p.mutex ≠ none ∧ (w.phase = .idle ∨ w.phase = .notified) := by
  apply (setThread_step p.toShared i w).of_eq hw
  have hstep := congrArg State.toShared (h.worker i)
  simpa only [step, hw] using hstep

theorem Stuck.mutex (h : Stuck p) (hsync : Synchronized p.toShared) : p.mutex = none := by
  by_contra hmutex
  obtain ⟨i, hi⟩ := Option.ne_none_iff_exists'.mp hmutex
  have hholds := (hsync.exclusive i).mp hi
  rw [Shared.holders, List.getElem?_map] at hholds
  obtain ⟨w, hw, hphase⟩ := Option.map_eq_some_iff.mp hholds
  rcases h.worker_eq hw with hw | hw | ⟨-, hw | hw⟩ <;>
    · rw [hw] at hphase
      cases hphase

theorem Stuck.workers (h : Stuck p) (hsync : Synchronized p.toShared) :
    ∀ w ∈ p.workers, w.phase = .asleep ∨ w.phase = .returned := by
  intro w hw
  obtain ⟨i, hi⟩ := List.mem_iff_getElem?.mp hw
  rcases h.worker_eq hi with hasleep | hret | ⟨hmutex, -⟩
  · exact Or.inl hasleep
  · exact Or.inr hret
  · exact absurd (h.mutex hsync) hmutex

/-- A push can always be finished when the mutex is free. -/
theorem exists_notifyOne {k : ℕ} (hmutex : s.mutex = none) (hk : k < s.pending.length) :
    ∃ i, (s.notifyOne k i).pending = s.pending.eraseIdx k := by
  cases hany : s.workers.any fun w => w.phase.isAsleep with
  | false =>
      refine ⟨0, ?_⟩
      rw [Shared.notifyOne, if_pos ⟨hmutex, hk⟩, hany, if_neg Bool.false_ne_true]
  | true =>
      obtain ⟨w, hw, hasleep⟩ := List.any_eq_true.mp hany
      obtain ⟨i, hi⟩ := List.mem_iff_getElem?.mp hw
      refine ⟨i, ?_⟩
      rw [Shared.notifyOne, if_pos ⟨hmutex, hk⟩, if_pos hany, hi]
      simp only [hasleep, if_true]
      rfl

theorem Stuck.pending (h : Stuck p) (hsync : Synchronized p.toShared) : p.pending = [] := by
  by_contra hpending
  have hlt : 0 < p.pending.length := List.length_pos_iff.mpr hpending
  obtain ⟨i, hi⟩ := exists_notifyOne (h.mutex hsync) hlt
  have hstep : (p.notifyOne 0 i).pending = p.pending :=
    congrArg (fun p' : State τ => p'.pending) (h.push 0 i)
  have hlen := congrArg List.length (hi.symm.trans hstep)
  rw [List.length_eraseIdx_of_lt hlt] at hlen
  omega

theorem Stuck.q (h : Stuck p) (hsync : Synchronized p.toShared)
    (hasleep : ∃ w ∈ p.workers, w.phase = .asleep) : p.q = [] := by
  obtain ⟨v, hv, hvasleep⟩ := hasleep
  have hwill : p.weigh (fun f => f.willPop.toNat) = 0 := by
    rw [Shared.weigh, sum_map_toNat, List.countP_eq_zero]
    intro w hw
    rcases h.workers hsync w hw with hphase | hphase <;>
      · rw [hphase]
        simp [Phase.willPop]
  have hpos : 0 < p.weigh (fun f => f.isAsleep.toNat) := by
    rw [Shared.weigh, sum_map_toNat, List.countP_pos_iff]
    exact ⟨v, hv, Phase.isAsleep_iff.mpr hvasleep⟩
  have hlen := hsync.awake hpos
  rw [h.pending hsync, hwill] at hlen
  exact List.length_eq_zero_iff.mp (Nat.le_zero.mp hlen)

theorem Stuck.outside (h : Stuck p) (hsync : Synchronized p.toShared) (hs : Ordered p) :
    p.caller = .outside := by
  have hmutex := h.mutex hsync
  have hstuck : (resume p).1 = p := h.caller
  have hcall : (resume p).1.caller = p.caller := congrArg State.caller hstuck
  have hdequeue (next : State τ) (hnext : next.caller ≠ p.caller) :
      (clearQueue p next).1 ≠ p := by
    intro heq
    cases hq : p.q with
    | nil =>
        simp only [clearQueue, hq] at heq
        exact hnext (congrArg State.caller heq)
    | cons f q =>
        simp only [clearQueue, hq] at heq
        have hlen := congrArg (fun p' : State τ => p'.q.length) heq
        simp only [hq, List.length_cons] at hlen
        omega
  cases hcaller : p.caller with
  | outside => rfl
  | growing nThreads =>
      exfalso
      simp only [resume, hcaller] at hstuck hcall
      split_ifs at hstuck hcall
      have hlen := congrArg (fun p' : State τ => p'.threads.length) hstuck
      simp [State.spawn] at hlen
  | detaching i nThreads =>
      exfalso
      simp only [resume, hcaller] at hcall
      split_ifs at hcall with hi
      simp only [Caller.detaching.injEq] at hcall
      omega
  | wakingDetached nThreads | waking =>
      exfalso
      simp only [resume, hcaller, notifyAll, if_pos hmutex] at hcall
      cases hcall
  | shrinking nThreads =>
      exfalso
      simp only [resume, hcaller] at hcall
      cases hcall
  | flagging i =>
      exfalso
      simp only [resume, hcaller] at hcall
      split_ifs at hcall
      simp only [Caller.flagging.injEq] at hcall
      omega
  | clearing | clearingRest | clearingQueue =>
      exfalso
      simp only [resume, hcaller] at hstuck
      exact hdequeue _ (by simp [hcaller]) hstuck
  | joining i =>
      exfalso
      simp only [resume, hcaller] at hcall
      split_ifs at hcall with hi hret
      · simp only [Caller.joining.injEq] at hcall
        omega
      · -- the thread that is waited for does not sleep, so it has returned
        have hprogress := hs.progress
        rw [Progress, hcaller] at hprogress
        obtain ⟨j, hj⟩ : ∃ j, p.threads[i]? = some j := ⟨_, List.getElem?_eq_getElem hi⟩
        have hw := List.getElem?_eq_getElem (hs.valid j (List.mem_of_getElem? hj))
        have hobedient := hprogress.2.1 i j _ hj hw
        have hphase := (h.workers hsync _ (List.mem_of_getElem? hw)).resolve_left hobedient.1
        apply hret
        rw [State.hasReturned, hj]
        simp only [hw, Option.any_some]
        exact Phase.hasReturned_iff.mpr hphase

/-- When nothing can move, no call and no push is under way, every worker sleeps or has
returned, and the queue is empty unless all of them have returned. -/
theorem stuck_run (es : List (Event τ)) (h : Stuck (run step init es)) :
    (run step init es).caller = .outside ∧ (run step init es).pending = [] ∧
      (∀ w ∈ (run step init es).workers, w.phase = .asleep ∨ w.phase = .returned) ∧
      ((run step init es).q = [] ∨ ∀ w ∈ (run step init es).workers, w.phase = .returned) := by
  have hsync := synchronized_run es
  have hs := ordered_run es
  have hworkers := h.workers hsync
  refine ⟨h.outside hsync hs, h.pending hsync, hworkers, ?_⟩
  by_cases hasleep : ∃ w ∈ (run step init es).workers, w.phase = .asleep
  · exact Or.inl (h.q hsync hasleep)
  · right
    intro w hw
    exact (hworkers w hw).resolve_left fun hphase => hasleep ⟨w, hw, hphase⟩

/-- The pool whose worker sleeps cannot move. -/
theorem stuck_idlePool : Stuck (run step init idlePool) := by
  have hrun : run step init idlePool =
      ⟨⟨[⟨0, false, .asleep⟩], [], false, 1, none, []⟩, [0], false, .outside⟩ := by
    decide
  rw [hrun]
  refine ⟨fun i => ?_, rfl, fun k i => rfl⟩
  cases i <;> rfl

theorem stuck_run_idlePool :
    (run step init idlePool).caller = .outside ∧ (run step init idlePool).pending = [] ∧
      (∀ w ∈ (run step init idlePool).workers, w.phase = .asleep ∨ w.phase = .returned) ∧
      ((run step init idlePool).q = [] ∨
        ∀ w ∈ (run step init idlePool).workers, w.phase = .returned) :=
  stuck_run idlePool stuck_idlePool

/-! ### Everything comes to rest -/

/-- The events that need nobody from outside. -/
def Event.internal : Event τ → Bool
  | .worker _ | .caller | .notifyOne _ _ => true
  | _ => false

/-- How many steps the caller has at most before it, functors to delete left out. -/
def toCall (p : State τ) : ℕ :=
  match p.caller with
  | .outside => 0
  | .growing nThreads => nThreads - p.threads.length + 1
  | .detaching i nThreads => i - nThreads + 3
  | .wakingDetached _ => 2
  | .shrinking _ | .clearingRest | .clearingQueue => 1
  | .flagging i => p.threads.length - i + p.threads.length + 5
  | .clearing => p.threads.length + 4
  | .waking => p.threads.length + 3
  | .joining i => p.threads.length - i + 2

/-- How many steps a worker has at most before it sleeps or has returned, unless it finds a
functor. -/
def Phase.toSleep : Phase τ → ℕ
  | .running _ => 6
  | .popping => 5
  | .idle | .notified => 4
  | .testing => 3
  | .readsDone => 2
  | .readsFlag => 1
  | .asleep | .returned => 0

def measure (p : State τ) : ℕ ×ₗ ℕ ×ₗ ℕ ×ₗ ℕ :=
  toLex (toCall p, toLex (p.pending.length, toLex (p.q.length, p.weigh Phase.toSleep)))

theorem WorkerStep.measure {i : ℕ} {w : Worker τ} (h : WorkerStep s i w s' o)
    (hw : s.workers[i]? = some w) (hne : s' ≠ s) :
    s'.pending = s.pending ∧ (s'.q.length < s.q.length ∨
      s'.q = s.q ∧ s'.weigh Phase.toSleep < s.weigh Phase.toSleep) := by
  have hless {f : Phase τ} (hset : s'.workers = s.workers.set i { w with phase := f })
      (hf : f.toSleep < w.phase.toSleep) : s'.weigh Phase.toSleep < s.weigh Phase.toSleep := by
    have hweigh := weigh_set Phase.toSleep hw hset
    omega
  cases h with
  | take f q hphase hq | takeLocked f q hphase hq =>
      refine ⟨rfl, Or.inl ?_⟩
      rw [hq]
      exact Nat.lt_succ_self _
  | finish f hphase =>
      refine ⟨rfl, Or.inr ⟨rfl, hless rfl ?_⟩⟩
      rw [hphase]
      split_ifs <;> simp [Phase.toSleep]
  | wait hwait => exact absurd rfl hne
  | miss hphase hq | missLocked hphase hq | lock hphase hmutex | relock hphase hmutex
  | done hphase hdone | notDone hphase hdone | flagged hphase hflag | sleep hphase hflag =>
      refine ⟨rfl, Or.inr ⟨rfl, hless rfl ?_⟩⟩
      simp [hphase, Phase.toSleep]

theorem notifyOne_measure {k i : ℕ} (hne : s.notifyOne k i ≠ s) :
    (s.notifyOne k i).pending.length < s.pending.length ∧ (s.notifyOne k i).q = s.q := by
  have herase (hk : k < s.pending.length) :
      (s.pending.eraseIdx k).length < s.pending.length := by
    rw [List.length_eraseIdx_of_lt hk]
    omega
  rw [Shared.notifyOne] at hne ⊢
  split_ifs at hne ⊢ with hfree hany
  · cases hw : s.workers[i]? with
    | none =>
        rw [hw] at hne
        exact absurd rfl hne
    | some w =>
        simp only [hw] at hne ⊢
        split_ifs at hne ⊢
        · exact ⟨herase hfree.2, rfl⟩
        · exact absurd rfl hne
  · exact ⟨herase hfree.2, rfl⟩
  · exact absurd rfl hne

theorem clearQueue_measure (next : State τ) (hnext : toCall next < toCall p) :
    toCall (clearQueue p next).1 < toCall p ∨
      toCall (clearQueue p next).1 = toCall p ∧ (clearQueue p next).1.pending = p.pending ∧
        (clearQueue p next).1.q.length < p.q.length := by
  cases hq : p.q with
  | nil =>
      left
      simp only [clearQueue, hq]
      exact hnext
  | cons f q =>
      right
      simp [clearQueue, hq, toCall]

theorem resume_measure (hne : (resume p).1 ≠ p) :
    toCall (resume p).1 < toCall p ∨
      toCall (resume p).1 = toCall p ∧ (resume p).1.pending = p.pending ∧
        (resume p).1.q.length < p.q.length := by
  cases hcaller : p.caller with
  | outside =>
      simp only [resume, hcaller] at hne
      exact absurd rfl hne
  | growing nThreads =>
      left
      simp only [resume, hcaller]
      split_ifs with hlt
      · have hspawn : p.spawn.threads.length = p.threads.length + 1 := by simp [State.spawn]
        simp only [toCall, hcaller, show p.spawn.caller = .growing nThreads from hcaller, hspawn]
        omega
      · simp [toCall, hcaller]
  | detaching i nThreads =>
      left
      simp only [resume, hcaller]
      split_ifs with hlt
      · simp only [toCall, hcaller]
        omega
      · simp [toCall, hcaller]
  | wakingDetached nThreads | waking =>
      left
      simp only [resume, hcaller, notifyAll] at hne ⊢
      split_ifs at hne ⊢
      · simp [toCall, hcaller]
      · exact absurd rfl hne
  | shrinking nThreads =>
      left
      simp [resume, toCall, hcaller]
  | flagging i =>
      left
      simp only [resume, hcaller]
      split_ifs with hlt
      · simp only [toCall, hcaller, raiseFlag_threads]
        omega
      · simp only [toCall, hcaller]
        omega
  | joining i =>
      left
      simp only [resume, hcaller] at hne ⊢
      split_ifs at hne ⊢ with hlt hret
      · simp only [toCall, hcaller]
        omega
      · exact absurd rfl hne
      · simp [toCall, hcaller]
  | clearing | clearingRest | clearingQueue =>
      simp only [resume, hcaller]
      apply clearQueue_measure
      simp [toCall, hcaller]

theorem measure_lt {e : Event τ} (he : e.internal = true) (hne : (step p e).1 ≠ p) :
    measure (step p e).1 < measure p := by
  simp only [measure, Prod.Lex.toLex_lt_toLex]
  cases e with
  | caller =>
      rcases resume_measure hne with hcall | ⟨hcall, hpending, hq⟩
      · exact Or.inl hcall
      · exact Or.inr ⟨hcall, Or.inr ⟨congrArg List.length hpending, Or.inl hq⟩⟩
  | notifyOne k i =>
      have hshared : p.toShared.notifyOne k i ≠ p.toShared := by
        intro heq
        apply hne
        simp only [step, heq]
      exact Or.inr ⟨rfl, Or.inl (notifyOne_measure hshared).1⟩
  | worker i =>
      simp only [step] at hne ⊢
      cases hw : p.workers[i]? with
      | none =>
          rw [hw] at hne
          exact absurd rfl hne
      | some w =>
          simp only [hw] at hne ⊢
          have hshared : (setThread p.toShared i w).1 ≠ p.toShared := by
            intro heq
            apply hne
            rw [heq]
          obtain ⟨hpending, hrest⟩ := (setThread_step p.toShared i w).measure hw hshared
          refine Or.inr ⟨rfl, Or.inr ⟨congrArg List.length hpending, ?_⟩⟩
          rcases hrest with hq | ⟨hq, hphases⟩
          · exact Or.inl hq
          · exact Or.inr ⟨congrArg List.length hq, hphases⟩
  | push f | spurious i | call c | pop => cases he

/-- Without pushes, calls and causeless wake-ups every run comes to rest: there is no infinite
sequence of steps that change something. -/
theorem internal_wellFounded :
    WellFounded fun p' p : State τ =>
      ∃ e : Event τ, e.internal = true ∧ (step p e).1 = p' ∧ p' ≠ p := by
  apply Subrelation.wf _ (InvImage.wf measure wellFounded_lt)
  rintro p' p ⟨e, he, rfl, hne⟩
  exact measure_lt he hne

end ForexSuite.ThreadPool
