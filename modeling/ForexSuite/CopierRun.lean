import ForexSuite.CopierPool

/-!
# The trade copier at work

A plugin instance as a whole: `OnDealPerform` creates deal objects and pushes tasks
into the thread pool, the thread of the pool runs them, and `Start` and `Stop`
resize and stop the pool. A task reads its deal object at the latest when it ends,
and it is at this step that the model runs it.

Seen from outside, the pool is a queue with one worker. So what a task finds and
sends depends on the releases alone: as long as no deal object is released while a
task refers to it, every request that is sent is made of the deal that caused it.
-/
namespace ForexSuite.CopierRun

open TextNumbers EventMachine CopierPlugin CopierRouting CopierPool
open DealLifetime (Task Call WorkerRun runTask)
open ThreadPool (Synchronized Ordered Over Stuck)

/-- The deal objects, the running calls of `OnDealPerform`, and the pool. -/
structure Copier where
  store : Finmap (fun _ : ℕ => Deal)
  fresh : ℕ
  calls : List Call
  pool : ThreadPool.State Task

def Copier.new : Copier := ⟨∅, 0, [], ThreadPool.init⟩

/-- `resume` is one step of a call of `OnDealPerform`. -/
inductive Event where
  | onDealPerform (deal : Deal)
  | resume (call : ℕ)
  | pool (e : PoolEvent)
deriving DecidableEq

/-- A step of a call, which may push a task to the pool. -/
def Copier.resume (s : Copier) (call : ℕ) : Copier :=
  let r := DealLifetime.resume ⟨s.store, s.fresh, s.calls, []⟩ call
  ⟨r.store, r.fresh, r.calls, run ThreadPool.step s.pool (r.queue.map .push)⟩

/-- A step in the pool. When the thread ends a task, the task has read its deal object. -/
def Copier.inPool (s : Copier) (e : PoolEvent) : Copier × List WorkerRun :=
  let r := ThreadPool.step s.pool (PluginEvent.pool e).toPool
  ({ s with pool := r.1 }, r.2.ended.map (runTask s.store))

def step (check : Text → Text → Bool) (api : ServerApi) (p : CPluginInstance) (s : Copier) :
    Event → Copier × List WorkerRun
  | .onDealPerform deal =>
      ({ s with calls := s.calls ++ [⟨deal, onDealPerform check api p deal, .outside⟩] }, [])
  | .resume call => (s.resume call, [])
  | .pool e => s.inPool e

/-- What the thread has run. -/
def worked (check : Text → Text → Bool) (api : ServerApi) (p : CPluginInstance) (es : List Event) :
    List WorkerRun :=
  (trace (step check api p) .new es).flatten

variable {check : Text → Text → Bool} {api : ServerApi} {p : CPluginInstance} {s : Copier}
  {pool : ThreadPool.State Task}

theorem pushed_pool (e : PoolEvent) : (PluginEvent.pool e).toPool.pushed = [] := by
  cases e <;> rfl

/-! ### The pool of a copier -/

/-- What is known of the pool in every run. -/
structure Sound (pool : ThreadPool.State Task) : Prop where
  synchronized : Synchronized pool.toShared
  ordered : Ordered pool
  hosted : Hosted pool

theorem sound_init : Sound ThreadPool.init :=
  ⟨ThreadPool.synchronized_init, ThreadPool.ordered_init, hosted_init⟩

theorem Sound.after_step (h : Sound pool) (e : PluginEvent) :
    Sound (ThreadPool.step pool e.toPool).1 :=
  ⟨(ThreadPool.step_shared pool e.toPool).synchronized h.synchronized,
    h.ordered.after_step h.synchronized e.toPool, h.hosted.after_step h.ordered e⟩

theorem Sound.after_push (h : Sound pool) (ts : List Task) :
    Sound (run ThreadPool.step pool (ts.map .push)) := by
  induction ts generalizing pool with
  | nil => exact h
  | cons t ts ih => exact ih (h.after_step (.push t))

theorem after_over_push (h : Over pool) (ts : List Task) :
    Over (run ThreadPool.step pool (ts.map .push)) := by
  induction ts generalizing pool with
  | nil => exact h
  | cons t ts ih => exact ih (h.after_step (.push t))

theorem run_push (pool : ThreadPool.State Task) (ts : List Task) :
    (run ThreadPool.step pool (ts.map .push)).q = pool.q ++ ts ∧
      (run ThreadPool.step pool (ts.map .push)).workers = pool.workers := by
  induction ts generalizing pool with
  | nil => exact ⟨(List.append_nil _).symm, rfl⟩
  | cons t ts ih =>
      obtain ⟨hq, hworkers⟩ := ih (ThreadPool.step pool (.push t)).1
      refine ⟨?_, hworkers⟩
      rw [List.append_cons]
      exact hq

/-- The tasks that have been pushed and not been run to their end. -/
def tasks (pool : ThreadPool.State Task) : List Task := pool.underWay ++ pool.q

theorem tasks_push (pool : ThreadPool.State Task) (ts : List Task) :
    tasks (run ThreadPool.step pool (ts.map .push)) = tasks pool ++ ts := by
  obtain ⟨hq, hworkers⟩ := run_push pool ts
  rw [tasks, ThreadPool.Shared.underWay, hworkers, hq, ← List.append_assoc]
  rfl

/-- As long as the pool has its thread, tasks end in the order in which they were pushed. -/
theorem Sound.tasks_step (h : Sound pool) (hover : ¬ Over pool) (e : PluginEvent) :
    (ThreadPool.step pool e.toPool).2.ended ++ tasks (ThreadPool.step pool e.toPool).1 =
      tasks pool ++ e.toPool.pushed := by
  have hshared := ThreadPool.step_shared pool e.toPool
  have hunderWay := hshared.underWay (h.after_step e).hosted.length
  have hqueue := hshared.queue
  have hremoved : (ThreadPool.step pool e.toPool).2.removed = [] := by
    by_contra hne
    exact hover (h.hosted.over_of_removed h.ordered e hne)
  have htaken : (ThreadPool.step pool e.toPool).2.taken =
      (ThreadPool.step pool e.toPool).2.begun := by
    revert hremoved
    cases (ThreadPool.step pool e.toPool).2 with
    | deleted t | popped t => nofun
    | silent | started i index t | finished i index t => exact fun _ => rfl
  rw [htaken] at hqueue
  rw [tasks, ← List.append_assoc, ← hunderWay, List.append_assoc, hqueue, ← List.append_assoc]
  rfl

/-! ### The pool is a queue with one worker -/

/-- The state of the instance as one that has only a queue. -/
def Copier.lifetime (s : Copier) : DealLifetime.State :=
  ⟨s.store, s.fresh, s.calls, tasks s.pool⟩

/-- A step of a call does not look into the queue. -/
theorem resume_queue (s : DealLifetime.State) (call : ℕ) :
    DealLifetime.resume s call =
      { DealLifetime.resume ⟨s.store, s.fresh, s.calls, []⟩ call with
        queue := s.queue ++ (DealLifetime.resume ⟨s.store, s.fresh, s.calls, []⟩ call).queue } := by
  unfold DealLifetime.resume
  cases hc : s.calls[call]? with
  | none => simp
  | some c => cases hscope : c.scope <;> cases htodo : c.todo <;> simp [hscope, htodo]

theorem lifetime_resume (s : Copier) (call : ℕ) :
    (s.resume call).lifetime = DealLifetime.resume s.lifetime call := by
  rw [resume_queue, Copier.lifetime, Copier.resume]
  simp only [tasks_push]
  rfl

/-- No deal object is released while a task that has not ended refers to it. -/
def ReleasesUnused (s : Copier) : Event → Prop
  | .resume call => DealLifetime.ReleasesUnused s.lifetime (.resume call)
  | _ => True

/-- The instance does what the queue with one worker does, until its thread is gone. -/
def Matches (s : Copier) (a : DealLifetime.State) : Prop :=
  Sound s.pool ∧ (a = s.lifetime ∨ Over s.pool)

variable (check api p) in
theorem step_over (hover : Over s.pool) (e : Event) :
    Over (step check api p s e).1.pool ∧ (step check api p s e).2 = [] := by
  cases e with
  | onDealPerform deal => exact ⟨hover, rfl⟩
  | resume call => exact ⟨after_over_push hover _, rfl⟩
  | pool e =>
      refine ⟨hover.after_step _, ?_⟩
      rw [step, Copier.inPool, (hover.silent _).2]
      rfl

variable (check api p) in
theorem Sound.after (h : Sound s.pool) (e : Event) : Sound (step check api p s e).1.pool := by
  cases e with
  | onDealPerform deal => exact h
  | resume call => exact h.after_push _
  | pool e => exact h.after_step (.pool e)

variable (check api p) in
/-- A step in the pool is one of the worker, or none. -/
theorem inPool_matched (h : Sound s.pool) (hover : ¬ Over s.pool) (e : PoolEvent) :
    ∃ fs : List DealLifetime.Event, (∀ f ∈ fs, f = .worker) ∧
      run (DealLifetime.step check api p) s.lifetime fs = (s.inPool e).1.lifetime ∧
      (trace (DealLifetime.step check api p) s.lifetime fs).flatMap Option.toList =
        (s.inPool e).2 := by
  have htasks := h.tasks_step hover (.pool e)
  rw [pushed_pool, List.append_nil] at htasks
  have hended : (ThreadPool.step s.pool (PluginEvent.pool e).toPool).2.ended = [] ∨
      ∃ t, (ThreadPool.step s.pool (PluginEvent.pool e).toPool).2.ended = [t] := by
    cases (ThreadPool.step s.pool (PluginEvent.pool e).toPool).2 with
    | finished i index t => exact Or.inr ⟨t, rfl⟩
    | silent | started i index t | deleted t | popped t => exact Or.inl rfl
  rcases hended with hended | ⟨t, hended⟩
  · refine ⟨[], nofun, ?_, ?_⟩
    · rw [hended, List.nil_append] at htasks
      rw [Copier.lifetime, Copier.inPool, Copier.lifetime]
      simp only [htasks]
      rfl
    · rw [Copier.inPool, hended]
      rfl
  · rw [hended] at htasks
    have hworker : DealLifetime.step check api p s.lifetime .worker =
        ((s.inPool e).1.lifetime, some (runTask s.store t)) := by
      rw [Copier.lifetime, Copier.inPool, Copier.lifetime, ← htasks]
      rfl
    refine ⟨[.worker], List.forall_mem_singleton.mpr rfl, ?_, ?_⟩
    · rw [run_cons, hworker]
      rfl
    · rw [trace_cons, hworker, Copier.inPool, hended]
      rfl

theorem step_matched {a : DealLifetime.State} (h : Matches s a) (e : Event) :
    ∃ fs : List DealLifetime.Event,
      Matches (step check api p s e).1 (run (DealLifetime.step check api p) a fs) ∧
      (ReleasesUnused s e →
        Along (DealLifetime.step check api p) DealLifetime.ReleasesUnused a fs) ∧
      (trace (DealLifetime.step check api p) a fs).flatMap Option.toList =
        (step check api p s e).2 := by
  have hsound := h.1.after check api p e
  by_cases hover : Over s.pool
  · obtain ⟨hnext, hsilent⟩ := step_over check api p hover e
    exact ⟨[], ⟨hsound, Or.inr hnext⟩, fun _ => trivial, hsilent.symm⟩
  obtain rfl := h.2.resolve_right hover
  cases e with
  | onDealPerform deal =>
      exact ⟨[.onDealPerform deal], ⟨hsound, Or.inl rfl⟩, fun _ => ⟨trivial, trivial⟩, rfl⟩
  | resume call =>
      refine ⟨[.resume call], ⟨hsound, Or.inl ?_⟩, fun hunused => ⟨hunused, trivial⟩, rfl⟩
      exact (lifetime_resume s call).symm
  | pool e =>
      obtain ⟨fs, hfs, hrun, htrace⟩ := inPool_matched check api p h.1 hover e
      refine ⟨fs, ⟨hsound, Or.inl hrun⟩, fun _ => ?_, htrace⟩
      have hall : Along (DealLifetime.step check api p) (fun _ f => f = .worker) s.lifetime fs :=
        along_const.mpr hfs
      apply hall.mono
      rintro _ _ rfl
      trivial

theorem matches_new : Matches .new .start := ⟨sound_init, Or.inl rfl⟩

/-- The pool is a queue with one worker: whatever the threads do and in whatever order, the tasks
are run, and find their deal objects, as in some run of the instance that has only a queue. The
two are in the same state until the thread of the pool is gone. -/
theorem pool_is_queue (check : Text → Text → Bool) (api : ServerApi) (p : CPluginInstance)
    (es : List Event) :
    ∃ fs : List DealLifetime.Event,
      (trace (DealLifetime.step check api p) .start fs).flatMap Option.toList =
        worked check api p es ∧
      (run (DealLifetime.step check api p) .start fs = (run (step check api p) .new es).lifetime ∨
        Over (run (step check api p) .new es).pool) := by
  have hstep (s : Copier) (a : DealLifetime.State) (e : Event) (h : Matches s a) (_ : True) :
      ∃ fs : List DealLifetime.Event,
        Matches (step check api p s e).1 (run (DealLifetime.step check api p) a fs) ∧
        Along (DealLifetime.step check api p) (fun _ _ => True) a fs ∧
        (trace (DealLifetime.step check api p) a fs).flatMap Option.toList =
          id (step check api p s e).2 := by
    obtain ⟨fs, hnext, -, hobs⟩ := step_matched h e
    exact ⟨fs, hnext, along_const.mpr fun _ _ => trivial, hobs⟩
  have htrue : Along (step check api p) (fun _ _ => True) .new es :=
    along_const.mpr fun _ _ => trivial
  obtain ⟨fs, hmatches, -, htrace⟩ := htrue.simulated Matches id Option.toList hstep matches_new
  refine ⟨fs, ?_, hmatches.2⟩
  rw [htrace, List.flatMap_id, worked]

/-- The tasks find their deals because those of the queue with one worker do. -/
theorem readsCause_of_releasesUnused (hassign : ∀ deal, api.assign deal = true) {es : List Event}
    (h : Along (step check api p) ReleasesUnused .new es) :
    ∀ w ∈ worked check api p es, DealLifetime.ReadsCause (some w) := by
  have hstep (s : Copier) (a : DealLifetime.State) (e : Event) (hmatches : Matches s a)
      (hunused : ReleasesUnused s e) :
      ∃ fs : List DealLifetime.Event,
        Matches (step check api p s e).1 (run (DealLifetime.step check api p) a fs) ∧
        Along (DealLifetime.step check api p) DealLifetime.ReleasesUnused a fs ∧
        (trace (DealLifetime.step check api p) a fs).flatMap Option.toList =
          id (step check api p s e).2 := by
    obtain ⟨fs, hnext, halong, hobs⟩ := step_matched hmatches e
    exact ⟨fs, hnext, halong hunused, hobs⟩
  obtain ⟨fs, -, halong, htrace⟩ := h.simulated Matches id Option.toList hstep matches_new
  have hreads := halong.outputs DealLifetime.Safe (DealLifetime.step_safe hassign)
    (fun a e hsafe _ => DealLifetime.step_readsCause a e hsafe) DealLifetime.safe_start
  intro w hw
  rw [worked, ← List.flatMap_id, ← htrace] at hw
  obtain ⟨o, ho, hwo⟩ := List.mem_flatMap.mp hw
  rw [← Option.mem_toList.mp hwo]
  exact hreads o ho

/-- In every run in which no deal object is released while a task that has not ended refers to
it, each task finds the deal that caused it and sends the request made of this deal. -/
theorem worked_reads_cause (check : Text → Text → Bool) (api : ServerApi) (p : CPluginInstance)
    (hassign : ∀ deal, api.assign deal = true) (es : List Event)
    (h : Along (step check api p) ReleasesUnused .new es) :
    ∀ w ∈ worked check api p es, w.deal = some w.task.cause ∧ w.request =
      some (processDealRequest w.task.cause w.task.managerLogin w.task.targetlogin) :=
  fun w hw => readsCause_of_releasesUnused hassign h w hw w rfl

theorem releasesUnused_of_tasks (h : tasks s.pool = []) (e : Event) : ReleasesUnused s e := by
  cases e with
  | resume call => exact DealLifetime.releasesUnused_of_queue (s := s.lifetime) h (.resume call)
  | onDealPerform deal | pool e => trivial

/-- A deal is reported to an instance that was started, and the task is run before the call ends. -/
def oneDeal : List Event :=
  [.pool .Start, .pool .goOn, .pool .goOn, .onDealPerform (.client 100 "EURUSD".toList),
    .resume 0, .resume 0, .pool (.notifyOne 0 0), .pool (.worker 0), .pool (.worker 0), .resume 0]

theorem releasesUnused_oneDeal :
    Along (step GroupMask.checkGroupMask everyoneInDemo DealLifetime.oneRule) ReleasesUnused .new
      oneDeal := by
  refine ⟨trivial, trivial, trivial, trivial, ?_, ?_, trivial, trivial, trivial, ?_, trivial⟩ <;>
    exact releasesUnused_of_tasks (by decide) _

theorem worked_reads_cause_oneDeal :
    ∃ w ∈ worked GroupMask.checkGroupMask everyoneInDemo DealLifetime.oneRule oneDeal,
      w.deal = some w.task.cause ∧ w.request =
        some (processDealRequest w.task.cause w.task.managerLogin w.task.targetlogin) := by
  have hne : worked GroupMask.checkGroupMask everyoneInDemo DealLifetime.oneRule oneDeal ≠ [] := by
    decide
  obtain ⟨w, hw⟩ := List.exists_mem_of_ne_nil _ hne
  exact ⟨w, hw, worked_reads_cause GroupMask.checkGroupMask everyoneInDemo DealLifetime.oneRule
    (fun _ => rfl) oneDeal releasesUnused_oneDeal w hw⟩

end ForexSuite.CopierRun
