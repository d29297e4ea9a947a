import ForexSuite.DealLifetime
import ForexSuite.ThreadPoolRest
import ForexSuite.ThreadPoolStop

/-!
# The thread pool of the trade copier

`Start` resizes the pool to one thread, `OnDealPerform` pushes requests, and `Stop`
calls `stop(true)`. So there is never a second thread, the requests that are sent are
the first ones that were pushed, in their order, and an instance that was stopped
sends nothing more, even when it is started again.
-/
namespace ForexSuite.CopierPool

open EventMachine ThreadPool DealLifetime CopierPlugin

/-- What happens to the pool of a plugin instance beside pushes. `goOn` is a step of `Start` or
`Stop` in the pool, and `notifyOne` the end of a push. -/
inductive PoolEvent where
  | Start
  | Stop
  | goOn
  | notifyOne (k i : ℕ)
  | worker (i : ℕ)
  | spurious (i : ℕ)
deriving DecidableEq

inductive PluginEvent where
  | push (t : Task)
  | pool (e : PoolEvent)
deriving DecidableEq

def PluginEvent.toPool : PluginEvent → ThreadPool.Event Task
  | .push t => .push t
  | .pool .Start => .call (.resize 1)
  | .pool .Stop => .call (.stop true)
  | .pool .goOn => .caller
  | .pool (.notifyOne k i) => .notifyOne k i
  | .pool (.worker i) => .worker i
  | .pool (.spurious i) => .spurious i

/-- The pool of an instance after what has happened. -/
def pool (es : List PluginEvent) : ThreadPool.State Task :=
  run ThreadPool.step init (es.map PluginEvent.toPool)

def outputs (es : List PluginEvent) : List (Output Task) :=
  trace ThreadPool.step init (es.map PluginEvent.toPool)

/-- The requests that were pushed. -/
def pushed (es : List PluginEvent) : List Task :=
  es.flatMap fun e => e.toPool.pushed

/-- The requests that were sent. -/
def sent (es : List PluginEvent) : List Task := (outputs es).flatMap Output.ended

/-- The places of a call of `stop(true)`. -/
def Draining : Caller → Prop
  | .waking | .joining _ | .clearingRest => True
  | _ => False

/-- The pool of an instance is open, being stopped, or done with its threads. -/
inductive Stage (p : ThreadPool.State Task) : Prop where
  | opened (hdone : p.isDone = false) (hstop : p.isStop = false) (hattached : AllAttached p)
      (hcaller : p.caller = .outside ∨ p.caller = .growing 1)
  | closing (hclosing : Closing p) (hcaller : Draining p.caller)
  | ended (hover : Over p) (hcaller : p.caller = .outside)

structure Hosted (p : ThreadPool.State Task) : Prop where
  length : p.workers.length ≤ 1
  stage : Stage p

variable {p : ThreadPool.State Task}

theorem hosted_init : Hosted (init : ThreadPool.State Task) :=
  ⟨Nat.zero_le 1, .opened rfl rfl rfl (Or.inl rfl)⟩

theorem Hosted.aside {p' : ThreadPool.State Task} (h : Hosted p) (haside : Aside p p')
    (hover : Over p → Over p') : Hosted p' := by
  have hattached (hall : AllAttached p) : AllAttached p' := by
    rw [AllAttached, haside.threads, haside.length]
    exact hall
  refine ⟨haside.length.trans_le h.length, ?_⟩
  cases h.stage with
  | opened hdone hstop hall hcaller =>
      exact .opened (haside.isDone.trans hdone) (haside.isStop.trans hstop) (hattached hall)
        (haside.caller ▸ hcaller)
  | closing hclosing hcaller =>
      refine .closing ⟨haside.caller ▸ hclosing.stopping, ?_, hattached hclosing.attached⟩
        (haside.caller ▸ hcaller)
      rw [haside.isDone, haside.isStop]
      exact hclosing.told
  | ended hold hcaller => exact .ended (hover hold) (haside.caller.trans hcaller)

theorem hosted_spawn (hdone : p.isDone = false) (hstop : p.isStop = false)
    (hall : AllAttached p) (hcaller : p.caller = .growing 1) (hlt : p.threads.length < 1) :
    Hosted p.spawn := by
  have hlen : p.threads.length = p.workers.length := by
    rw [hall, List.length_range]
  refine ⟨?_, .opened hdone hstop ?_ (Or.inr hcaller)⟩
  · change (p.workers ++ [_]).length ≤ 1
    rw [List.length_append, List.length_singleton]
    omega
  · change p.threads ++ [p.workers.length] = List.range (p.workers ++ [_]).length
    rw [List.length_append, List.length_singleton, List.range_succ, hall]

theorem resume_draining (h : Draining p.caller) :
    Draining (ThreadPool.resume p).1.caller ∨ (ThreadPool.resume p).1.caller = .outside := by
  cases hcaller : p.caller with
  | waking =>
      left
      simp only [ThreadPool.resume, hcaller, notifyAll]
      split_ifs
      · trivial
      · exact h
  | joining i =>
      left
      simp only [ThreadPool.resume, hcaller]
      split_ifs
      · trivial
      · exact h
      · trivial
  | clearingRest =>
      simp only [ThreadPool.resume, hcaller, clearQueue]
      cases p.q with
      | nil => exact Or.inr rfl
      | cons f q => exact Or.inl trivial
  | outside | growing nThreads | detaching i nThreads | wakingDetached nThreads
  | shrinking nThreads | flagging i | clearing | clearingQueue =>
      rw [hcaller] at h
      cases h

theorem Hosted.goOn (h : Hosted p) (hs : Ordered p) : Hosted (ThreadPool.resume p).1 := by
  cases h.stage with
  | opened hdone hstop hall hcaller =>
      rcases hcaller with hcaller | hcaller
      · simp only [ThreadPool.resume, hcaller]
        exact h
      · simp only [ThreadPool.resume, hcaller]
        split_ifs with hlt
        · exact hosted_spawn hdone hstop hall hcaller hlt
        · exact ⟨h.length, .opened hdone hstop hall (Or.inl rfl)⟩
  | closing hclosing hcaller =>
      have hgrow : ∀ nThreads, p.caller ≠ .growing nThreads := by
        intro n hgrow
        rw [hgrow] at hcaller
        cases hcaller
      refine ⟨(resume_length hgrow).trans_le h.length, ?_⟩
      rcases hclosing.after_resume hs with hnext | ⟨hover, hout⟩
      · apply Stage.closing hnext
        apply (resume_draining hcaller).resolve_right
        intro hout
        have hstopping := hnext.stopping
        rw [hout] at hstopping
        cases hstopping
      · exact .ended hover hout
  | ended hover hcaller =>
      simp only [ThreadPool.resume, hcaller]
      exact h

theorem Hosted.Start (h : Hosted p) (hout : p.caller = .outside) :
    Hosted (begin p (.resize 1)) := by
  cases h.stage with
  | opened hdone hstop hall hcaller =>
      have hlen : p.threads.length ≤ 1 := by
        rw [hall, List.length_range]
        exact h.length
      have hbegin : begin p (.resize 1) = { p with caller := .growing 1 } := by
        simp [begin, hdone, hstop, hlen]
      rw [hbegin]
      exact ⟨h.length, .opened hdone hstop hall (Or.inr rfl)⟩
  | closing hclosing hcaller =>
      rw [hout] at hcaller
      cases hcaller
  | ended hover hcaller =>
      rw [begin_resize_of_told hover.told]
      exact h

theorem Hosted.Stop (h : Hosted p) (hout : p.caller = .outside) :
    Hosted (begin p (.stop true)) := by
  cases h.stage with
  | opened hdone hstop hall hcaller =>
      have hbegin : begin p (.stop true) = { p with isDone := true, caller := .waking } := by
        simp [begin, hdone, hstop]
      have hclosing := closing_begin true hdone hstop hall
      rw [hbegin] at hclosing ⊢
      exact ⟨h.length, .closing hclosing trivial⟩
  | closing hclosing hcaller =>
      rw [hout] at hcaller
      cases hcaller
  | ended hover hcaller =>
      rw [begin_stop_of_told hover.told]
      exact h

theorem Hosted.after_step (h : Hosted p) (hs : Ordered p) (e : PluginEvent) :
    Hosted (ThreadPool.step p e.toPool).1 := by
  rcases step_cases p e.toPool with hcaller | ⟨c, hcall, hout, hbegin⟩ | haside
  · rw [hcaller]
    exact h.goOn hs
  · rw [hbegin]
    cases e with
    | push t => cases hcall
    | pool e =>
        cases e with
        | Start =>
            cases hcall
            exact h.Start hout
        | Stop =>
            cases hcall
            exact h.Stop hout
        | goOn | notifyOne k i | worker i | spurious i => cases hcall
  · exact h.aside haside fun hover => hover.after_step _

theorem hosted_pool (es : List PluginEvent) : Hosted (pool es) := by
  suffices hrun : ∀ p : ThreadPool.State Task, Synchronized p.toShared → Ordered p → Hosted p →
      Hosted (run ThreadPool.step p (es.map PluginEvent.toPool)) from
    hrun init synchronized_init ordered_init hosted_init
  induction es with
  | nil => exact fun _ _ _ h => h
  | cons e es ih =>
      intro p hsync hs h
      exact ih _ ((step_shared p e.toPool).synchronized hsync) (hs.after_step hsync e.toPool)
        (h.after_step hs e)

/-- A request is dropped only when there is no thread left. -/
theorem Hosted.over_of_removed (h : Hosted p) (hs : Ordered p) (e : PluginEvent)
    (hremoved : (ThreadPool.step p e.toPool).2.removed ≠ []) : Over p := by
  have hcaller : e.toPool = .caller := by
    cases hout : (ThreadPool.step p e.toPool).2 with
    | deleted f => exact eq_caller_of_deleted hout
    | popped f =>
        have hpop := eq_pop_of_popped hout
        cases e with
        | push t => cases hpop
        | pool e => cases e <;> cases hpop
    | silent | started i index f | finished i index f =>
        rw [hout] at hremoved
        exact absurd rfl hremoved
  rw [hcaller] at hremoved
  simp only [ThreadPool.step] at hremoved
  cases h.stage with
  | opened hdone hstop hall hplace =>
      exfalso
      apply hremoved
      rcases hplace with hplace | hplace <;>
        · simp only [ThreadPool.resume, hplace]
          rfl
  | closing hclosing hplace =>
      cases hat : p.caller with
      | clearingRest =>
          have hprogress := hs.progress
          rw [Progress, hat] at hprogress
          refine ⟨hclosing.told, ?_, by simp [hat]⟩
          intro w hw
          obtain ⟨i, hi⟩ := List.mem_iff_getElem?.mp hw
          apply hprogress.2 i i w _ hi
          rw [hclosing.attached, List.getElem?_range (List.getElem?_eq_some_iff.mp hi).1]
      | waking | joining i =>
          exfalso
          apply hremoved
          simp only [ThreadPool.resume, hat]
          rfl
      | outside | growing nThreads | detaching i nThreads | wakingDetached nThreads
      | shrinking nThreads | flagging i | clearing | clearingQueue =>
          rw [hat] at hplace
          cases hplace
  | ended hover hplace => exact hover

/-- What leaves the queue is started, until `Stop` drops the rest. -/
theorem taken_eq_begun_append {p : ThreadPool.State Task} (hsync : Synchronized p.toShared)
    (hs : Ordered p) (h : Hosted p) (es : List PluginEvent) :
    (trace ThreadPool.step p (es.map PluginEvent.toPool)).flatMap Output.taken =
      (trace ThreadPool.step p (es.map PluginEvent.toPool)).flatMap Output.begun ++
        (trace ThreadPool.step p (es.map PluginEvent.toPool)).flatMap Output.removed := by
  induction es generalizing p with
  | nil => rfl
  | cons e es ih =>
      have hrest := ih ((step_shared p e.toPool).synchronized hsync)
        (hs.after_step hsync e.toPool) (h.after_step hs e)
      simp only [List.map_cons, trace_cons, List.flatMap_cons]
      by_cases hremoved : (ThreadPool.step p e.toPool).2.removed = []
      · have htaken : (ThreadPool.step p e.toPool).2.taken =
            (ThreadPool.step p e.toPool).2.begun := by
          revert hremoved
          cases (ThreadPool.step p e.toPool).2 with
          | deleted f | popped f => nofun
          | silent | started i index f | finished i index f => exact fun _ => rfl
        rw [hrest, htaken, hremoved, List.nil_append, List.append_assoc]
      · have hover := h.over_of_removed hs e hremoved
        have hsilent := (hover.after_step e.toPool).run_silent (es.map PluginEvent.toPool)
        have hnone : (trace ThreadPool.step (ThreadPool.step p e.toPool).1
            (es.map PluginEvent.toPool)).flatMap Output.begun = [] := by
          rw [List.flatMap_eq_nil_iff]
          exact fun o ho => (hsilent o ho).1
        have htaken : (ThreadPool.step p e.toPool).2.taken =
            (ThreadPool.step p e.toPool).2.removed := by
          revert hremoved
          cases (ThreadPool.step p e.toPool).2 with
          | deleted f | popped f => exact fun _ => rfl
          | silent | started i index f | finished i index f => exact fun hne => absurd rfl hne
        rw [hrest, hnone, htaken, (hover.silent e.toPool).1]
        rfl

/-- The requests that were sent are the first ones that were pushed. Behind them come the one
that is being sent, those that `Stop` dropped, and those that are queued. -/
theorem pushed_eq_sent_append (es : List PluginEvent) :
    pushed es = sent es ++ (pool es).underWay ++ (outputs es).flatMap Output.removed ++
      (pool es).q := by
  have hqueue := queue_run (init : ThreadPool.State Task) (es.map PluginEvent.toPool)
  have htaken := taken_eq_begun_append synchronized_init ordered_init hosted_init es
  have hbegun := begun_eq_ended_append (es.map PluginEvent.toPool) (hosted_pool es).length
  rw [htaken, hbegun, List.flatMap_map] at hqueue
  exact hqueue.symm

/-- When `Stop` has returned, the instance sends nothing more: neither what is pushed later nor
after another `Start`. -/
theorem sent_eq_of_stopped (es fs : List PluginEvent) (hdone : (pool es).isDone = true)
    (hout : (pool es).caller = .outside) : sent (es ++ fs) = sent es := by
  have hover : Over (pool es) := by
    cases (hosted_pool es).stage with
    | opened hnot hstop hall hplace =>
        rw [hdone] at hnot
        cases hnot
    | closing hclosing hplace =>
        rw [hout] at hplace
        cases hplace
    | ended hover hplace => exact hover
  have hsilent := hover.run_silent (fs.map PluginEvent.toPool)
  have hnone : (trace ThreadPool.step (pool es) (fs.map PluginEvent.toPool)).flatMap
      Output.ended = [] := by
    rw [List.flatMap_eq_nil_iff]
    exact fun o ho => (hsilent o ho).2
  rw [sent, outputs, List.map_append, trace_append, List.flatMap_append]
  exact (congrArg _ hnone).trans (List.append_nil _)

/-- An instance that was started and stopped. -/
def stopped : List PluginEvent :=
  List.map PluginEvent.pool ([.Start, .goOn, .goOn, .Stop, .goOn] ++
    List.replicate 4 (.worker 0) ++ List.replicate 3 .goOn)

/-- A deal to copy after another `Start`. -/
def restarted : List PluginEvent :=
  [.pool .Start, .pool .goOn, .push ⟨0, 1, 2, Deal.blank⟩, .pool (.notifyOne 0 0),
    .pool (.worker 0)]

theorem sent_restarted : sent (stopped ++ restarted) = sent stopped :=
  sent_eq_of_stopped stopped restarted (by decide) (by decide)

end ForexSuite.CopierPool
