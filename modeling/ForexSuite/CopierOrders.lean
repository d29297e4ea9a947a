import ForexSuite.CopierRun

/-!
# Every copy once

The copies that are due are those `OnDealPerform` finds for the deals that were
reported. The tasks that the thread has run, those in the pool, and those that running
calls have still to push are together what is due, as long as the pool has its thread.
After `Stop` copies may be missing, but never are there more. And what a task sends is
the copy it was pushed for, if it finds its deal object.
-/
namespace ForexSuite.CopierOrders

open TextNumbers EventMachine ListUpdates CopierPlugin CopierPool CopierRun
open DealLifetime (Task Call WorkerRun)
open ThreadPool (Synchronized Ordered Over Stuck)

/-- The request for a copy of a deal. -/
def dueRequest (deal : Deal) (r : CopyRequest) : TradeRequest :=
  processDealRequest deal r.managerLogin r.targetlogin

/-- The request that a task was pushed for. -/
def taskRequest (t : Task) : TradeRequest :=
  processDealRequest t.cause t.managerLogin t.targetlogin

/-- The requests that an event calls for. -/
def called (check : Text → Text → Bool) (api : ServerApi) (p : CPluginInstance) :
    Event → Multiset TradeRequest
  | .onDealPerform deal => (onDealPerform check api p deal).map (dueRequest deal)
  | _ => 0

/-- The requests for the copies that are due. -/
def due (check : Text → Text → Bool) (api : ServerApi) (p : CPluginInstance) (es : List Event) :
    Multiset TradeRequest :=
  (es.map (called check api p)).sum

/-- The requests that the thread has sent. A task that finds no deal object sends none. -/
def made (ws : List WorkerRun) : Multiset TradeRequest := ws.filterMap WorkerRun.request

/-- The requests of the tasks that the thread has run, whatever they have found. -/
def ended (ws : List WorkerRun) : Multiset TradeRequest := ws.map fun w => taskRequest w.task

/-- The requests of the tasks that a running call has still to push. -/
def callRequests (c : Call) : Multiset TradeRequest := c.todo.map (dueRequest c.deal)

/-- The requests of the tasks that are still to be run. -/
def owed (s : Copier) : Multiset TradeRequest :=
  (tasks s.pool).map taskRequest + (s.calls.map callRequests).sum

variable {check : Text → Text → Bool} {api : ServerApi} {p : CPluginInstance} {s : Copier}
  {pool : ThreadPool.State Task}

theorem ended_append (ws ws' : List WorkerRun) : ended (ws ++ ws') = ended ws + ended ws' := by
  rw [ended, List.map_append, ← Multiset.coe_add]
  rfl

theorem due_cons (e : Event) (es : List Event) :
    due check api p (e :: es) = called check api p e + due check api p es := by
  rw [due, List.map_cons, List.sum_cons]
  rfl

/-- A step of a call pushes what it has to push. -/
theorem resume_requests (s : DealLifetime.State) (call : ℕ) (hq : s.queue = []) :
    ((DealLifetime.resume s call).queue.map taskRequest : Multiset TradeRequest) +
        ((DealLifetime.resume s call).calls.map callRequests).sum =
      (s.calls.map callRequests).sum := by
  unfold DealLifetime.resume
  cases hc : s.calls[call]? with
  | none => simp [hq]
  | some c =>
      have hset (c' : Call) := sum_map_set callRequests hc c'
      cases hscope : c.scope with
      | outside =>
          cases htodo : c.todo with
          | nil => simp [hscope, htodo, hq]
          | cons r rest =>
              have hsame := hset { c with scope := .created s.fresh }
              simpa [hscope, htodo, hq] using add_right_cancel hsame
      | created object =>
          cases htodo : c.todo with
          | nil => simp [hscope, htodo, hq]
          | cons r rest =>
              have hless := hset { c with todo := rest, scope := .pushed object }
              have hhead : callRequests c = {dueRequest c.deal r} +
                  callRequests { c with todo := rest, scope := .pushed object } := by
                rw [callRequests, htodo]
                rfl
              rw [hhead, ← add_assoc] at hless
              rw [add_right_cancel hless.symm, add_comm]
              simp only [hscope, htodo, hq]
              rfl
      | pushed object =>
          have hsame := hset { c with scope := .outside }
          simpa [hscope, hq] using add_right_cancel hsame

theorem owed_resume (s : Copier) (call : ℕ) : owed (s.resume call) = owed s := by
  have hrequests := resume_requests ⟨s.store, s.fresh, s.calls, []⟩ call rfl
  rw [owed, owed, ← hrequests, Copier.resume, tasks_push, List.map_append, ← Multiset.coe_add,
    add_assoc]

theorem owed_onDealPerform (s : Copier) (deal : Deal) :
    owed (step check api p s (.onDealPerform deal)).1 =
      owed s + called check api p (.onDealPerform deal) := by
  simp only [step, owed, List.map_append, List.sum_append, List.map_singleton,
    List.sum_singleton]
  exact (add_assoc _ _ _).symm

theorem owed_inPool (h : Sound s.pool) (hover : ¬ Over s.pool) (e : PoolEvent) :
    ended (s.inPool e).2 + owed (s.inPool e).1 = owed s := by
  have htasks := h.tasks_step hover (.pool e)
  rw [pushed_pool, List.append_nil] at htasks
  rw [owed, owed, ← htasks, List.map_append, ← Multiset.coe_add, add_assoc, Copier.inPool, ended]
  simp only [List.map_map]
  rfl

/-- When the thread is gone tasks may be dropped. -/
theorem owed_inPool_le (h : Sound s.pool) (hover : Over s.pool) (e : PoolEvent) :
    ended (s.inPool e).2 + owed (s.inPool e).1 ≤ owed s := by
  have hshared := ThreadPool.step_shared s.pool (PluginEvent.pool e).toPool
  have hunderWay := hshared.underWay (h.after_step (.pool e)).hosted.length
  have hqueue := hshared.queue
  obtain ⟨hbegun, hended⟩ := hover.silent (PluginEvent.pool e).toPool
  rw [hbegun, hended, List.append_nil, List.nil_append] at hunderWay
  rw [pushed_pool, List.append_nil] at hqueue
  have htasks : (tasks (s.inPool e).1.pool).Sublist (tasks s.pool) := by
    rw [tasks, tasks, hunderWay, ← hqueue]
    exact (List.sublist_append_right _ _).append_left _
  have hnone : ended (s.inPool e).2 = 0 := by
    rw [Copier.inPool, hended]
    rfl
  rw [hnone, zero_add, owed, owed]
  exact add_le_add_left (Multiset.coe_le.mpr (htasks.map taskRequest).subperm) _

variable (check api p) in
theorem owed_step (h : Sound s.pool) (hover : ¬ Over s.pool) (e : Event) :
    ended (step check api p s e).2 + owed (step check api p s e).1 =
      owed s + called check api p e := by
  cases e with
  | onDealPerform deal => exact (zero_add _).trans (owed_onDealPerform s deal)
  | resume call => exact (zero_add _).trans ((owed_resume s call).trans (add_zero _).symm)
  | pool e => exact (owed_inPool h hover e).trans (add_zero _).symm

variable (check api p) in
theorem owed_step_le (h : Sound s.pool) (e : Event) :
    ended (step check api p s e).2 + owed (step check api p s e).1 ≤
      owed s + called check api p e := by
  by_cases hover : Over s.pool
  · cases e with
    | onDealPerform deal => exact ((zero_add _).trans (owed_onDealPerform s deal)).le
    | resume call => exact ((zero_add _).trans ((owed_resume s call).trans (add_zero _).symm)).le
    | pool e => exact (owed_inPool_le h hover e).trans_eq (add_zero _).symm
  · exact (owed_step check api p h hover e).le

variable (check api p) in
theorem owed_run_le (h : Sound s.pool) (es : List Event) :
    ended (trace (step check api p) s es).flatten + owed (run (step check api p) s es) ≤
      owed s + due check api p es := by
  induction es generalizing s with
  | nil => exact ((zero_add _).trans (add_zero _).symm).le
  | cons e es ih =>
      have hfirst := owed_step_le check api p h e
      have hrest := ih (h.after check api p e)
      rw [trace_cons, List.flatten_cons, ended_append, run_cons, due_cons, add_assoc]
      calc ended (step check api p s e).2 +
            (ended (trace (step check api p) (step check api p s e).1 es).flatten +
              owed (run (step check api p) (step check api p s e).1 es))
          ≤ ended (step check api p s e).2 +
              (owed (step check api p s e).1 + due check api p es) := add_le_add_right hrest _
        _ = ended (step check api p s e).2 + owed (step check api p s e).1 +
              due check api p es := (add_assoc _ _ _).symm
        _ ≤ owed s + called check api p e + due check api p es := add_le_add_left hfirst _
        _ = owed s + (called check api p e + due check api p es) := add_assoc _ _ _

/-- No task is run that is not due, and none more often than it is due. -/
theorem ended_le_due (check : Text → Text → Bool) (api : ServerApi) (p : CPluginInstance)
    (es : List Event) : ended (worked check api p es) ≤ due check api p es := by
  have hrun := owed_run_le check api p (s := .new) sound_init es
  rw [show owed .new = 0 from rfl, zero_add] at hrun
  exact (Multiset.le_add_right _ _).trans hrun

/-- Tasks that find their deals send what they were pushed for. -/
theorem made_eq_ended {ws : List WorkerRun} (h : ∀ w ∈ ws, DealLifetime.ReadsCause (some w)) :
    made ws = ended ws := by
  have hmap : ws.filterMap WorkerRun.request = ws.filterMap fun w => some (taskRequest w.task) :=
    List.filterMap_congr fun w hw => (h w hw w rfl).2
  rw [made, ended, hmap, List.filterMap_eq_map']

/-- No request is sent that is not for a copy that is due, and none more often than it is due,
whatever the order of the steps. -/
theorem made_le_due (check : Text → Text → Bool) (api : ServerApi) (p : CPluginInstance)
    (hassign : ∀ deal, api.assign deal = true) (es : List Event)
    (h : Along (step check api p) ReleasesUnused .new es) :
    made (worked check api p es) ≤ due check api p es := by
  rw [made_eq_ended (readsCause_of_releasesUnused hassign h)]
  exact ended_le_due check api p es

theorem made_le_due_oneDeal :
    made (worked GroupMask.checkGroupMask CopierRouting.everyoneInDemo DealLifetime.oneRule
        oneDeal) ≤
      due GroupMask.checkGroupMask CopierRouting.everyoneInDemo DealLifetime.oneRule oneDeal :=
  made_le_due GroupMask.checkGroupMask CopierRouting.everyoneInDemo DealLifetime.oneRule
    (fun _ => rfl) oneDeal releasesUnused_oneDeal

/-! ### At rest no copy is missing -/

/-- `Stop` was not called. -/
structure Opened (pool : ThreadPool.State Task) : Prop where
  isDone : pool.isDone = false
  isStop : pool.isStop = false

/-- `Start` was called: the pool has a thread or is about to start one. -/
def Begun (pool : ThreadPool.State Task) : Prop :=
  pool.caller = .growing 1 ∨ pool.workers ≠ []

theorem Opened.not_over (h : Opened pool) : ¬ Over pool := by
  intro hover
  rcases hover.told with hdone | hstop
  · rw [h.isDone] at hdone
    cases hdone
  · rw [h.isStop] at hstop
    cases hstop

/-- The stage of a pool that was not stopped. -/
theorem Opened.stage (h : Opened pool) (hs : Sound pool) :
    ThreadPool.AllAttached pool ∧ (pool.caller = .outside ∨ pool.caller = .growing 1) := by
  cases hs.hosted.stage with
  | opened hdone hstop hattached hcaller => exact ⟨hattached, hcaller⟩
  | closing hclosing hcaller =>
      exfalso
      rcases hclosing.told with hdone | hstop
      · rw [h.isDone] at hdone
        cases hdone
      · rw [h.isStop] at hstop
        cases hstop
  | ended hover hcaller => exact absurd hover h.not_over

theorem begin_resize_flags (pool : ThreadPool.State Task) (nThreads : ℕ) :
    (ThreadPool.begin pool (.resize nThreads)).isDone = pool.isDone ∧
      (ThreadPool.begin pool (.resize nThreads)).isStop = pool.isStop := by
  simp only [ThreadPool.begin]
  split_ifs <;> exact ⟨rfl, rfl⟩

theorem Opened.after_step (h : Opened pool) (e : PluginEvent) (he : e ≠ .pool .Stop) :
    Opened (ThreadPool.step pool e.toPool).1 := by
  have hsame (hflags : (ThreadPool.step pool e.toPool).1.isDone = pool.isDone ∧
      (ThreadPool.step pool e.toPool).1.isStop = pool.isStop) :
      Opened (ThreadPool.step pool e.toPool).1 :=
    ⟨hflags.1.trans h.isDone, hflags.2.trans h.isStop⟩
  rcases ThreadPool.step_cases pool e.toPool with hcaller | ⟨c, hcall, -, hbegin⟩ | haside
  · rw [hcaller] at hsame ⊢
    exact hsame ThreadPool.resume_told
  · rw [hbegin] at hsame ⊢
    cases e with
    | push t => cases hcall
    | pool e =>
        cases e with
        | Start =>
            cases hcall
            exact hsame (begin_resize_flags pool 1)
        | Stop => exact absurd rfl he
        | goOn | notifyOne k i | worker i | spurious i => cases hcall
  · exact hsame ⟨haside.isDone, haside.isStop⟩

theorem attached_of_growing (hs : Sound pool) (h : pool.caller = .growing 1) :
    ThreadPool.AllAttached pool := by
  cases hs.hosted.stage with
  | opened hdone hstop hattached hcaller => exact hattached
  | closing hclosing hcaller =>
      rw [h] at hcaller
      cases hcaller
  | ended hover hcaller =>
      rw [h] at hcaller
      cases hcaller

theorem Begun.after_step (h : Begun pool) (hs : Sound pool) (e : PluginEvent) :
    Begun (ThreadPool.step pool e.toPool).1 := by
  rcases h with hgrow | hworkers
  · rcases ThreadPool.step_cases pool e.toPool with hcaller | ⟨c, -, hout, -⟩ | haside
    · rw [hcaller]
      simp only [ThreadPool.step, ThreadPool.resume, hgrow]
      split_ifs with hlt
      · exact Or.inl hgrow
      · right
        have hattached := attached_of_growing hs hgrow
        rw [ThreadPool.AllAttached] at hattached
        rw [hattached, List.length_range] at hlt
        have hpos : 0 < pool.workers.length := by omega
        exact List.length_pos_iff.mp hpos
    · rw [hgrow] at hout
      cases hout
    · exact Or.inl (haside.caller.trans hgrow)
  · right
    have hlen := (ThreadPool.step_shared pool e.toPool).length_le
    exact List.length_pos_iff.mp ((List.length_pos_iff.mpr hworkers).trans_le hlen)

theorem begun_start (hopen : Opened pool) (hs : Sound pool) :
    Begun (ThreadPool.step pool (PluginEvent.pool .Start).toPool).1 := by
  obtain ⟨hattached, hcaller⟩ := hopen.stage hs
  left
  rcases hcaller with hout | hgrow
  · have hlen : pool.threads.length ≤ 1 := by
      rw [hattached, List.length_range]
      exact hs.hosted.length
    simp [ThreadPool.step, PluginEvent.toPool, ThreadPool.begin, hout, hopen.isDone,
      hopen.isStop, hlen]
  · simp [ThreadPool.step, PluginEvent.toPool, hgrow]

/-- A pool that was started, was not stopped and is at rest has nothing left to do. -/
theorem tasks_of_stuck (h : Stuck pool) (hs : Sound pool) (hopen : Opened pool)
    (hbegun : Begun pool) : tasks pool = [] := by
  have hout := h.outside hs.synchronized hs.ordered
  have hworkers : pool.workers ≠ [] := by
    apply hbegun.resolve_left
    rw [hout]
    nofun
  have hasleep : ∀ w ∈ pool.workers, w.phase = .asleep := by
    intro w hw
    apply (h.workers hs.synchronized w hw).resolve_right
    intro hret
    -- a thread returns only when it was told to
    rcases hs.ordered.returned w hw hret with hflag | hdone
    · have hprogress := hs.ordered.progress
      rw [ThreadPool.Progress, hout] at hprogress
      obtain ⟨i, hi⟩ := List.mem_iff_getElem?.mp hw
      have hthread : pool.threads[i]? = some i := by
        rw [(hopen.stage hs).1, List.getElem?_range (List.getElem?_eq_some_iff.mp hi).1]
      have hlow := hprogress hopen.isDone hopen.isStop i i w hthread hi
      rw [ThreadPool.Unflagged, hflag] at hlow
      cases hlow
    · rw [hopen.isDone] at hdone
      cases hdone
  obtain ⟨w, hw⟩ := List.exists_mem_of_ne_nil _ hworkers
  rw [tasks, h.q hs.synchronized ⟨w, hw, hasleep w hw⟩, List.append_nil,
    ThreadPool.Shared.underWay, List.flatMap_eq_nil_iff]
  intro v hv
  rw [hasleep v hv]
  rfl

theorem Opened.after_push (h : Opened pool) (ts : List Task) :
    Opened (run ThreadPool.step pool (ts.map .push)) := by
  induction ts generalizing pool with
  | nil => exact h
  | cons t ts ih => exact ih (h.after_step (.push t) nofun)

theorem Begun.after_push (h : Begun pool) (hs : Sound pool) (ts : List Task) :
    Begun (run ThreadPool.step pool (ts.map .push)) := by
  induction ts generalizing pool with
  | nil => exact h
  | cons t ts ih => exact ih (h.after_step hs (.push t)) (hs.after_step (.push t))

theorem Opened.after (h : Opened s.pool) (e : Event) (he : e ≠ .pool .Stop) :
    Opened (step check api p s e).1.pool := by
  cases e with
  | onDealPerform deal => exact h
  | resume call => exact h.after_push _
  | pool e =>
      apply h.after_step (.pool e)
      intro heq
      cases heq
      exact he rfl

theorem Begun.after (h : Begun s.pool) (hs : Sound s.pool) (e : Event) :
    Begun (step check api p s e).1.pool := by
  cases e with
  | onDealPerform deal => exact h
  | resume call => exact h.after_push hs _
  | pool e => exact h.after_step hs (.pool e)

variable (check api p) in
/-- Without a `Stop` nothing is dropped. -/
theorem owed_run (hs : Sound s.pool) (hopen : Opened s.pool) (es : List Event)
    (hstop : .pool .Stop ∉ es) :
    ended (trace (step check api p) s es).flatten + owed (run (step check api p) s es) =
        owed s + due check api p es ∧
      Sound (run (step check api p) s es).pool ∧ Opened (run (step check api p) s es).pool := by
  induction es generalizing s with
  | nil => exact ⟨(zero_add _).trans (add_zero _).symm, hs, hopen⟩
  | cons e es ih =>
      obtain ⟨he, hes⟩ := List.ne_and_not_mem_of_not_mem_cons hstop
      have hfirst := owed_step check api p hs hopen.not_over e
      obtain ⟨hrest, hsound, hopened⟩ := ih (hs.after check api p e)
        (hopen.after e (Ne.symm he)) hes
      refine ⟨?_, hsound, hopened⟩
      rw [trace_cons, List.flatten_cons, ended_append, run_cons, add_assoc, hrest, ← add_assoc,
        hfirst, add_assoc, due_cons]

theorem begun_run (hs : Sound s.pool) (h : Begun s.pool) (es : List Event) :
    Begun (run (step check api p) s es).pool := by
  induction es generalizing s with
  | nil => exact h
  | cons e es ih => exact ih (hs.after check api p e) (h.after hs e)

variable (check api p) in
theorem begun_of_start (hs : Sound s.pool) (hopen : Opened s.pool) {es : List Event}
    (hstart : .pool .Start ∈ es) (hstop : .pool .Stop ∉ es) :
    Begun (run (step check api p) s es).pool := by
  induction es generalizing s with
  | nil => cases hstart
  | cons e es ih =>
      obtain ⟨he, hes⟩ := List.ne_and_not_mem_of_not_mem_cons hstop
      rcases List.mem_cons.mp hstart with rfl | hstart
      · exact begun_run (hs.after check api p (.pool .Start)) (begun_start hopen hs) es
      · exact ih (hs.after check api p e) (hopen.after e (Ne.symm he)) hstart hes

/-- When an instance that was started and not stopped comes to rest, with no call of
`OnDealPerform` under way, every task that is due has been run, each as often as it is due. -/
theorem ended_eq_due (es : List Event) (hstart : .pool .Start ∈ es) (hstop : .pool .Stop ∉ es)
    (hrest : Stuck (run (step check api p) .new es).pool)
    (hcalls : ∀ c ∈ (run (step check api p) .new es).calls, c.todo = []) :
    ended (worked check api p es) = due check api p es := by
  obtain ⟨hrun, hs, hopen⟩ := owed_run check api p (s := .new)
    sound_init ⟨rfl, rfl⟩ es hstop
  have hbegun := begun_of_start check api p (s := .new)
    sound_init ⟨rfl, rfl⟩ hstart hstop
  have hnone : owed (run (step check api p) .new es) = 0 := by
    rw [owed, tasks_of_stuck hrest hs hopen hbegun]
    refine (zero_add _).trans (List.sum_eq_zero ?_)
    intro m hm
    obtain ⟨c, hc, rfl⟩ := List.mem_map.mp hm
    rw [callRequests, hcalls c hc]
    rfl
  rw [hnone, add_zero, show owed .new = 0 from rfl, zero_add] at hrun
  exact hrun

/-- When an instance that was started and not stopped comes to rest, with no call of
`OnDealPerform` under way, a request was sent for every copy that is due, as often as it is
due, if no deal object was released while a task referred to it. -/
theorem made_eq_due (check : Text → Text → Bool) (api : ServerApi) (p : CPluginInstance)
    (hassign : ∀ deal, api.assign deal = true) (es : List Event)
    (h : Along (step check api p) ReleasesUnused .new es)
    (hstart : .pool .Start ∈ es) (hstop : .pool .Stop ∉ es)
    (hrest : Stuck (run (step check api p) .new es).pool)
    (hcalls : ∀ c ∈ (run (step check api p) .new es).calls, c.todo = []) :
    made (worked check api p es) = due check api p es := by
  rw [made_eq_ended (readsCause_of_releasesUnused hassign h)]
  exact ended_eq_due es hstart hstop hrest hcalls

/-- The deal of `oneDeal` is copied, and the thread goes back to sleep. -/
def atRest : List Event := oneDeal ++ List.replicate 5 (.pool (.worker 0))

theorem stuck_atRest :
    Stuck (run (step GroupMask.checkGroupMask CopierRouting.everyoneInDemo DealLifetime.oneRule)
      .new atRest).pool := by
  have hrun : (run (step GroupMask.checkGroupMask CopierRouting.everyoneInDemo
      DealLifetime.oneRule) .new atRest).pool =
      ⟨⟨[⟨0, false, .asleep⟩], [], false, 1, none, []⟩, [0], false, .outside⟩ := by
    decide
  rw [hrun]
  refine ⟨fun i => ?_, rfl, fun k i => rfl⟩
  cases i <;> rfl

theorem made_eq_due_atRest :
    made (worked GroupMask.checkGroupMask CopierRouting.everyoneInDemo DealLifetime.oneRule
        atRest) =
      due GroupMask.checkGroupMask CopierRouting.everyoneInDemo DealLifetime.oneRule atRest :=
  made_eq_due GroupMask.checkGroupMask CopierRouting.everyoneInDemo DealLifetime.oneRule
    (fun _ => rfl) atRest
    (releasesUnused_oneDeal.concat ⟨trivial, trivial, trivial, trivial, trivial, trivial⟩)
    (by decide) (by decide) stuck_atRest (by decide)

end ForexSuite.CopierOrders
