import ForexSuite.ThreadPoolCalls

/-!
# What `stop` leaves behind

`stop(true)` runs the queue out: a functor whose push was over when it was called is
run, whatever the order in which the workers, the other pushes and the caller go
on. After either kind of `stop` of a pool that never gave a thread up, no functor is
started any more, and calls of `resize` do not bring threads back.
-/
namespace ForexSuite.ThreadPool

open EventMachine ListUpdates

variable {τ : Type*} {s s' : Shared τ} {fs : List τ} {o : Output τ} {p : State τ}

/-! ### The queue is run out -/

/-- `f` is queued while `stop(true)` waits for the first thread, and no worker has overlooked
it. -/
structure Owed (f : τ) (p : State τ) : Prop where
  queued : f ∈ p.q
  waits : p.caller = .waking ∨ p.caller = .joining 0
  threads : p.threads ≠ []
  unflagged : ∀ k, Attached Unflagged p k
  stays : ∀ k, Attached (fun w => ¬ Returned w) p k
  looks : ∀ w ∈ p.workers, w.phase.missed = false

/-- A worker that was not told to finish and has not just missed the queue does not return. -/
def Stays (w w' : Worker τ) : Prop :=
  Unflagged w → w.phase.missed = false → ¬ Returned w → ¬ Returned w'

theorem Stays.refl (w : Worker τ) : Stays w w := fun _ _ h => h

theorem WorkerStep.stays {i : ℕ} {w : Worker τ} (h : WorkerStep s i w s' o)
    (hw : s.workers[i]? = some w) : Throughout Stays s s' := by
  have hgo {f : Phase τ} (hset : s'.workers = s.workers.set i { w with phase := f })
      (hf : Stays w { w with phase := f }) : Throughout Stays s s' :=
    Throughout.of_set Stays.refl hset hw hf
  cases h with
  | finish f hphase =>
      apply hgo rfl
      intro hflag _ _
      rw [Unflagged] at hflag
      rw [hflag]
      nofun
  | done hphase hdone =>
      apply hgo rfl
      intro _ hmissed
      rw [hphase] at hmissed
      cases hmissed
  | flagged hphase hflag =>
      apply hgo rfl
      intro hnot
      rw [Unflagged, hflag] at hnot
      cases hnot
  | wait hwait => exact Throughout.of_eq Stays.refl rfl
  | take f q hphase hq | takeLocked f q hphase hq => exact hgo rfl fun _ _ _ => nofun
  | miss hphase hq | missLocked hphase hq | lock hphase hmutex | relock hphase hmutex
  | notDone hphase hdone | sleep hphase hflag => exact hgo rfl fun _ _ _ => nofun

theorem SharedStep.stays (h : SharedStep s fs s' o) : Throughout Stays s s' := by
  cases h with
  | spawn index => exact Throughout.of_spawn Stays.refl index
  | raiseFlag i => exact Throughout.of_raiseFlag Stays.refl (fun _ _ _ hw => hw) i
  | notifyAll hmutex =>
      apply Throughout.of_notifyAll
      intro w _ _ hw
      rw [Worker.wake]
      split_ifs
      · simp [Returned]
      · exact hw
  | notifyOne k i w hmutex hk hw hphase | spurious i w hw hphase =>
      exact Throughout.of_set Stays.refl rfl hw fun _ _ _ => by simp [Returned]
  | worker i w _ _ hw hstep => exact hstep.stays hw
  | _ => exact Throughout.of_eq Stays.refl rfl

/-- While something is queued no worker misses the queue. -/
theorem SharedStep.looks (h : SharedStep s fs s' o) (hq : s.q ≠ [])
    (hs : ∀ w ∈ s.workers, w.phase.missed = false) : ∀ w ∈ s'.workers, w.phase.missed = false := by
  have hset {i : ℕ} {w : Worker τ} {f : Phase τ}
      (hset : s'.workers = s.workers.set i { w with phase := f }) (hf : f.missed = false) :
      ∀ w ∈ s'.workers, w.phase.missed = false := by
    intro v hv
    rw [hset] at hv
    rcases List.mem_or_eq_of_mem_set hv with hv | rfl
    · exact hs v hv
    · exact hf
  cases h with
  | spawn index =>
      intro w hw
      rcases List.mem_append.mp hw with hw | hw
      · exact hs w hw
      · rw [List.mem_singleton.mp hw]
        rfl
  | raiseFlag i =>
      intro w hw
      obtain ⟨v, hv, hvw⟩ := exists_mem_of_map_eq (map_phase_raiseFlag (f := Phase.missed) i) hw
      exact hvw.symm.trans (hs v hv)
  | notifyAll hmutex =>
      intro w hw
      obtain ⟨v, hv, hvw⟩ := exists_mem_of_map_eq (map_phase_notifyAll (f := Phase.missed) rfl) hw
      exact hvw.symm.trans (hs v hv)
  | notifyOne k i w hmutex hk hw hphase | spurious i w hw hphase => exact hset rfl rfl
  | worker i w _ _ hw hstep =>
      have hlooks := hs w (List.mem_of_getElem? hw)
      cases hstep with
      | missLocked hphase hnil => exact absurd hnil hq
      | notDone hphase hdone =>
          rw [hphase] at hlooks
          cases hlooks
      | finish f hphase =>
          apply hset rfl
          split_ifs <;> rfl
      | wait hwait => exact hs
      | take f q hphase hq | takeLocked f q hphase hq => exact hset rfl rfl
      | miss hphase hq | lock hphase hmutex | relock hphase hmutex | done hphase hdone
      | flagged hphase hflag | sleep hphase hflag => exact hset rfl rfl
  | _ => exact hs

/-- Only a call of `clear_queue` deletes functors. -/
theorem eq_caller_of_deleted {e : Event τ} {f : τ} (h : (step p e).2 = .deleted f) :
    e = .caller := by
  cases e with
  | caller => rfl
  | worker i =>
      simp only [step] at h
      cases hw : p.workers[i]? with
      | none =>
          rw [hw] at h
          cases h
      | some w =>
          simp only [hw] at h
          have hremoved := (setThread_step p.toShared i w).queue.2
          rw [h] at hremoved
          cases hremoved
  | pop =>
      simp only [step] at h
      cases hq : p.q with
      | nil =>
          rw [hq] at h
          cases h
      | cons f q =>
          rw [hq] at h
          cases h
  | push f | notifyOne k i | spurious i | call c => cases h

theorem eq_pop_of_popped {e : Event τ} {f : τ} (h : (step p e).2 = .popped f) : e = .pop := by
  cases e with
  | pop => rfl
  | worker i =>
      simp only [step] at h
      cases hw : p.workers[i]? with
      | none =>
          rw [hw] at h
          cases h
      | some w =>
          simp only [hw] at h
          have hremoved := (setThread_step p.toShared i w).queue.2
          rw [h] at hremoved
          cases hremoved
  | caller =>
      have hdequeue (next : State τ) : (clearQueue p next).2 ≠ .popped f := by
        cases hq : p.q <;> simp [clearQueue, hq]
      simp only [step] at h
      cases hcaller : p.caller with
      | clearing | clearingRest | clearingQueue =>
          simp only [resume, hcaller] at h
          exact absurd h (hdequeue _)
      | _ => simp [resume, hcaller] at h
  | push f | notifyOne k i | spurious i | call c => cases h

/-- A functor is handed out: to a worker, or by `pop`. -/
def HandedOut (f : τ) (o : Output τ) : Prop := f ∈ o.begun ∨ o = .popped f

theorem Owed.stays_keep {f : τ} (h : Owed f p) (hs : Ordered p) (p' : State τ)
    (hthreads : p'.threads = p.threads) (hstays : Throughout Stays p.toShared p'.toShared) (k : ℕ) :
    Attached (fun w => ¬ Returned w) p' k := by
  have hall : Attached (fun w => Unflagged w ∧ w.phase.missed = false ∧ ¬ Returned w) p k :=
    fun i w hi hw => ⟨h.unflagged k i w hi hw, h.looks w (List.mem_of_getElem? hw),
      h.stays k i w hi hw⟩
  exact hall.keep hs.valid hthreads hstays fun _ _ hw hR => hR hw.1 hw.2.1 hw.2.2

theorem Owed.after_resume {f : τ} (h : Owed f p) (hs : Ordered p) : Owed f (resume p).1 := by
  have hlooks := (resume_step p).looks (List.ne_nil_of_mem h.queued) h.looks
  have hstays := h.stays_keep hs (resume p).1
  revert hlooks hstays
  rcases h.waits with hcaller | hcaller
  · simp only [resume, hcaller, notifyAll]
    split_ifs with hmutex
    · intro hlooks hstays
      exact ⟨h.queued, Or.inr rfl, h.threads,
        fun k =>
         (h.unflagged k).keep hs.valid rfl notifyAll_flag fun _ _ hw hflag => hflag.trans hw,
        hstays rfl (SharedStep.notifyAll hmutex).stays, hlooks⟩
    · exact fun _ _ => h
  · have hlt : 0 < p.threads.length := List.length_pos_iff.mpr h.threads
    have hnot : p.hasReturned 0 = false := by
      rw [← Bool.not_eq_true]
      intro hret
      have hj := List.getElem?_eq_getElem hlt
      have hw := List.getElem?_eq_getElem (hs.valid _ (List.mem_of_getElem? hj))
      exact h.stays 0 _ _ hj hw (hasReturned_attached hret _ _ hj hw)
    simp only [resume, hcaller, if_pos hlt, hnot, Bool.false_eq_true, if_false]
    exact fun _ _ => h

theorem Owed.after_step {f : τ} (h : Owed f p) (hs : Ordered p) (e : Event τ) :
    HandedOut f (step p e).2 ∨ Owed f (step p e).1 := by
  have hshared := step_shared p e
  have hlooks := hshared.looks (List.ne_nil_of_mem h.queued) h.looks
  have hne : p.caller ≠ .outside := by
    rcases h.waits with hcaller | hcaller <;>
      · rw [hcaller]
        nofun
  by_cases hcaller : e = .caller
  · subst hcaller
    exact Or.inr (h.after_resume hs)
  · rcases step_cases p e with rfl | ⟨c, -, hout, -⟩ | haside
    · exact absurd rfl hcaller
    · exact absurd hout hne
    · have hmem : f ∈ (step p e).2.taken ++ (step p e).1.q := by
        rw [hshared.queue]
        exact List.mem_append_left _ h.queued
      rcases List.mem_append.mp hmem with htaken | hqueued
      · left
        cases hout : (step p e).2 with
        | started i index g =>
            rw [hout] at htaken
            exact Or.inl htaken
        | deleted g => exact absurd (eq_caller_of_deleted hout) hcaller
        | popped g =>
            rw [hout] at htaken
            exact Or.inr (congrArg Output.popped (List.mem_singleton.mp htaken).symm)
        | silent | finished i index g =>
            rw [hout] at htaken
            cases htaken
      · right
        exact ⟨hqueued, haside.caller ▸ h.waits, haside.threads ▸ h.threads,
          fun k => (h.unflagged k).keep hs.valid haside.threads haside.flag
            fun _ _ hw hflag => hflag.trans hw,
          h.stays_keep hs _ haside.threads hshared.stays, hlooks⟩

theorem Owed.after_run {f : τ} (h : Owed f p) (hsync : Synchronized p.toShared) (hs : Ordered p)
    (es : List (Event τ)) : (∃ o ∈ trace step p es, HandedOut f o) ∨ Owed f (run step p es) := by
  induction es generalizing p with
  | nil => exact Or.inr h
  | cons e es ih =>
      rcases h.after_step hs e with hout | hnext
      · exact Or.inl ⟨_, List.mem_cons_self, hout⟩
      · rcases ih hnext ((step_shared p e).synchronized hsync) (hs.after_step hsync e) with
          ⟨o, ho, hout⟩ | hrest
        · exact Or.inl ⟨o, List.mem_cons_of_mem _ ho, hout⟩
        · exact Or.inr hrest

/-- What is queued and notified when `stop(true)` is called is owed to its caller. -/
theorem owed_begin {f : τ} (hsync : Synchronized p.toShared) (hs : Ordered p)
    (hout : p.caller = .outside) (hdone : p.isDone = false) (hstop : p.isStop = false)
    (hthreads : p.threads ≠ []) (hf : f ∈ p.q) (hpending : f ∉ p.pending) :
    Owed f (begin p (.stop true)) := by
  have hunflagged : ∀ k, Attached Unflagged p k := by
    have hprogress := hs.progress
    rw [Progress, hout] at hprogress
    exact hprogress hdone hstop
  have hbegin : begin p (.stop true) = { p with isDone := true, caller := .waking } := by
    simp [begin, hdone, hstop]
  rw [hbegin]
  refine ⟨hf, Or.inl rfl, hthreads, hunflagged, ?_, ?_⟩
  · intro k i w hi hw hret
    rcases hs.returned w (List.mem_of_getElem? hw) hret with hflag | hnot
    · have hlow := hunflagged k i w hi hw
      rw [Unflagged, hflag] at hlow
      cases hlow
    · rw [hdone] at hnot
      cases hnot
  · intro w hw
    rw [← Bool.not_eq_true]
    intro hmissed
    exact hpending ((hsync.missed w hw hmissed).subset hf)

/-! ### After the call -/

/-- The threads of the pool are all threads that were ever started. -/
def AllAttached (p : State τ) : Prop := p.threads = List.range p.workers.length

instance (p : State τ) : Decidable (AllAttached p) :=
  inferInstanceAs (Decidable (p.threads = List.range p.workers.length))

def Caller.stopping : Caller → Bool
  | .flagging _ | .clearing | .waking | .joining _ | .clearingRest => true
  | _ => false

/-- A call of `stop` is under way in a pool that gave no thread up. -/
structure Closing (p : State τ) : Prop where
  stopping : p.caller.stopping = true
  told : p.isDone = true ∨ p.isStop = true
  attached : AllAttached p

/-- All threads have returned, and none is about to be started. -/
structure Over (p : State τ) : Prop where
  told : p.isDone = true ∨ p.isStop = true
  returned : ∀ w ∈ p.workers, Returned w
  caller : ∀ nThreads, p.caller ≠ .growing nThreads

theorem raiseFlag_length (k : ℕ) : (p.raiseFlag k).workers.length = p.workers.length := by
  rw [State.raiseFlag]
  split
  · rfl
  · exact List.length_modify _ _ _

theorem resume_length (hgrow : ∀ nThreads, p.caller ≠ .growing nThreads) :
    (resume p).1.workers.length = p.workers.length := by
  cases hcaller : p.caller with
  | growing nThreads => exact absurd hcaller (hgrow nThreads)
  | detaching i nThreads | flagging i =>
      simp only [resume, hcaller]
      split_ifs
      · exact raiseFlag_length _
      · rfl
  | wakingDetached nThreads | waking =>
      simp only [resume, hcaller, notifyAll]
      split_ifs
      · exact List.length_map _
      · rfl
  | joining i =>
      simp only [resume, hcaller]
      split_ifs <;> rfl
  | clearing | clearingRest | clearingQueue =>
      simp only [resume, hcaller, clearQueue]
      cases p.q <;> rfl
  | outside | shrinking nThreads => simp only [resume, hcaller]

/-- Nothing takes the order to finish back. -/
theorem resume_told : (resume p).1.isDone = p.isDone ∧ (resume p).1.isStop = p.isStop := by
  cases hcaller : p.caller with
  | growing nThreads =>
      simp only [resume, hcaller]
      split_ifs <;> exact ⟨rfl, rfl⟩
  | detaching i nThreads | flagging i =>
      simp only [resume, hcaller]
      split_ifs
      · exact ⟨raiseFlag_isDone _, raiseFlag_isStop _⟩
      · exact ⟨rfl, rfl⟩
  | wakingDetached nThreads | waking =>
      simp only [resume, hcaller, notifyAll]
      split_ifs <;> exact ⟨rfl, rfl⟩
  | joining i =>
      simp only [resume, hcaller]
      split_ifs <;> exact ⟨rfl, rfl⟩
  | clearing | clearingRest | clearingQueue =>
      simp only [resume, hcaller, clearQueue]
      cases p.q <;> exact ⟨rfl, rfl⟩
  | outside | shrinking nThreads => simp [resume, hcaller]

theorem resume_not_growing (h : ∀ nThreads, p.caller ≠ .growing nThreads) :
    ∀ nThreads, (resume p).1.caller ≠ .growing nThreads := by
  intro n
  cases hcaller : p.caller with
  | growing nThreads => exact absurd hcaller (h nThreads)
  | detaching i nThreads | flagging i =>
      simp only [resume, hcaller]
      split_ifs <;> simp
  | wakingDetached nThreads | waking =>
      simp only [resume, hcaller, notifyAll]
      split_ifs
      · simp
      · exact h n
  | joining i =>
      simp only [resume, hcaller]
      split_ifs
      · simp
      · exact h n
      · simp
  | clearing | clearingRest | clearingQueue =>
      simp only [resume, hcaller, clearQueue]
      cases p.q <;> simp
  | outside | shrinking nThreads =>
      simp only [resume, hcaller]
      first | exact h n | simp

theorem begin_resize_of_told (h : p.isDone = true ∨ p.isStop = true) (nThreads : ℕ) :
    begin p (.resize nThreads) = p := by
  have htold : (!p.isStop && !p.isDone) = false := by
    rcases h with hdone | hstop
    · rw [hdone, Bool.not_true, Bool.and_false]
    · rw [hstop, Bool.not_true, Bool.false_and]
  simp only [begin, htold, Bool.false_eq_true, if_false]

theorem begin_stop_of_told (h : p.isDone = true ∨ p.isStop = true) :
    begin p (.stop true) = p := by
  have htold : (p.isDone || p.isStop) = true := by
    rw [Bool.or_eq_true]
    exact h
  simp only [begin, htold, if_true]

theorem Over.begin (h : Over p) (c : Call) : Over (begin p c) := by
  cases c with
  | resize nThreads =>
      rw [begin_resize_of_told h.told]
      exact h
  | stop isWait =>
      cases isWait with
      | false =>
          simp only [ThreadPool.begin]
          split_ifs
          · exact h
          · exact ⟨Or.inr rfl, h.returned, by simp⟩
      | true =>
          rw [begin_stop_of_told h.told]
          exact h
  | clearQueue => exact ⟨h.told, h.returned, by simp [ThreadPool.begin]⟩

theorem returned_of_later {s s' : Shared τ} (h : ∀ w ∈ s.workers, Returned w)
    (hlen : s'.workers.length = s.workers.length) (hlater : Throughout (Later s.isDone) s s') :
    ∀ w ∈ s'.workers, Returned w := by
  intro w hw
  obtain ⟨i, hi⟩ := List.mem_iff_getElem?.mp hw
  have hlt := (List.getElem?_eq_some_iff.mp hi).1
  rw [hlen] at hlt
  have hold := List.getElem?_eq_getElem hlt
  exact (hlater i _ w hold hi).returned (h _ (List.mem_of_getElem? hold))

theorem Over.after_step (h : Over p) (e : Event τ) : Over (step p e).1 := by
  have hlater := (step_shared p e).later
  rcases step_cases p e with rfl | ⟨c, rfl, -, hbegin⟩ | haside
  · obtain ⟨hdone, hstop⟩ := resume_told (p := p)
    have htold : (resume p).1.isDone = true ∨ (resume p).1.isStop = true := by
      rw [hdone, hstop]
      exact h.told
    exact ⟨htold, returned_of_later h.returned (resume_length h.caller) hlater,
      resume_not_growing h.caller⟩
  · rw [hbegin]
    exact h.begin c
  · refine ⟨?_, returned_of_later h.returned haside.length hlater, ?_⟩
    · rw [haside.isDone, haside.isStop]
      exact h.told
    · rw [haside.caller]
      exact h.caller

theorem Over.silent (h : Over p) (e : Event τ) :
    (step p e).2.begun = [] ∧ (step p e).2.ended = [] := by
  have hshared := step_shared p e
  generalize e.pushed = fs at hshared
  generalize (step p e).1.toShared = s' at hshared
  generalize (step p e).2 = o at hshared
  cases hshared with
  | dequeue f q _ hq ho => rcases ho with rfl | rfl <;> exact ⟨rfl, rfl⟩
  | worker i w _ _ hw hstep =>
      have hret : w.phase = .returned := h.returned w (List.mem_of_getElem? hw)
      cases hstep with
      | wait hwait => exact ⟨rfl, rfl⟩
      | take f q hphase hq | takeLocked f q hphase hq | miss hphase hq | missLocked hphase hq
      | lock hphase hmutex | relock hphase hmutex | done hphase hdone | notDone hphase hdone
      | flagged hphase hflag | sleep hphase hflag | finish f hphase =>
          rw [hret] at hphase
          cases hphase
  | _ => exact ⟨rfl, rfl⟩

theorem Over.run_silent (h : Over p) (es : List (Event τ)) :
    ∀ o ∈ trace step p es, o.begun = [] ∧ o.ended = [] := by
  induction es generalizing p with
  | nil => nofun
  | cons e es ih =>
      intro o ho
      rcases List.mem_cons.mp ho with rfl | ho
      · exact h.silent e
      · exact ih (h.after_step e) o ho

theorem Closing.after_resume (h : Closing p) (hs : Ordered p) :
    Closing (resume p).1 ∨ Over (resume p).1 ∧ (resume p).1.caller = .outside := by
  have hgrow : ∀ nThreads, p.caller ≠ .growing nThreads := by
    intro n hcaller
    have hstopping := h.stopping
    rw [hcaller] at hstopping
    cases hstopping
  have htold : (resume p).1.isDone = true ∨ (resume p).1.isStop = true := by
    rw [(resume_told (p := p)).1, (resume_told (p := p)).2]
    exact h.told
  have hkeep (hthreads : (resume p).1.threads = p.threads)
      (hstopping : (resume p).1.caller.stopping = true) : Closing (resume p).1 := by
    refine ⟨hstopping, htold, ?_⟩
    rw [AllAttached, hthreads, resume_length hgrow]
    exact h.attached
  have hstopping := h.stopping
  have hprogress := hs.progress
  rw [Progress] at hprogress
  cases hcaller : p.caller with
  | flagging i =>
      left
      apply hkeep
      · simp only [resume, hcaller]
        split_ifs
        · exact raiseFlag_threads i
        · rfl
      · simp only [resume, hcaller]
        split_ifs <;> rfl
  | waking =>
      left
      apply hkeep
      · simp only [resume, hcaller, notifyAll]
        split_ifs <;> rfl
      · simp only [resume, hcaller, notifyAll]
        split_ifs
        · rfl
        · exact hstopping
  | joining i =>
      left
      apply hkeep
      · simp only [resume, hcaller]
        split_ifs <;> rfl
      · simp only [resume, hcaller]
        split_ifs
        · rfl
        · exact hstopping
        · rfl
  | clearing =>
      left
      apply hkeep
      · simp only [resume, hcaller, clearQueue]
        cases p.q <;> rfl
      · simp only [resume, hcaller, clearQueue]
        cases p.q <;> rfl
  | clearingRest =>
      rw [hcaller] at hprogress
      cases hq : p.q with
      | nil =>
          right
          have hresume : (resume p).1 = { p with threads := [], caller := .outside } := by
            simp only [resume, hcaller, clearQueue, hq]
          rw [hresume] at htold ⊢
          refine ⟨⟨htold, fun w hw => ?_, by simp⟩, rfl⟩
          obtain ⟨i, hi⟩ := List.mem_iff_getElem?.mp hw
          have hlt := (List.getElem?_eq_some_iff.mp hi).1
          apply hprogress.2 i i w _ hi
          rw [h.attached, List.getElem?_range hlt]
      | cons f q =>
          left
          apply hkeep
          · simp only [resume, hcaller, clearQueue, hq]
          · simp only [resume, hcaller, clearQueue, hq]
            rfl
  | outside | growing nThreads | detaching i nThreads | wakingDetached nThreads
  | shrinking nThreads | clearingQueue =>
      rw [hcaller] at hstopping
      cases hstopping

theorem Closing.after_step (h : Closing p) (hs : Ordered p) (e : Event τ) :
    Closing (step p e).1 ∨ Over (step p e).1 := by
  rcases step_cases p e with rfl | ⟨c, rfl, hout, -⟩ | haside
  · exact (h.after_resume hs).imp_right And.left
  · have hstopping := h.stopping
    rw [hout] at hstopping
    cases hstopping
  · left
    refine ⟨haside.caller ▸ h.stopping, ?_, ?_⟩
    · rw [haside.isDone, haside.isStop]
      exact h.told
    · rw [AllAttached, haside.threads, haside.length]
      exact h.attached

theorem Closing.after_run (h : Closing p) (hsync : Synchronized p.toShared) (hs : Ordered p)
    {es : List (Event τ)} (hout : (run step p es).caller = .outside) : Over (run step p es) := by
  suffices hrun : ∀ p : State τ, Closing p ∨ Over p → Synchronized p.toShared → Ordered p →
      Closing (run step p es) ∨ Over (run step p es) by
    rcases hrun p (Or.inl h) hsync hs with hclosing | hover
    · have hstopping := hclosing.stopping
      rw [hout] at hstopping
      cases hstopping
    · exact hover
  clear h hsync hs hout
  induction es with
  | nil => exact fun _ h _ _ => h
  | cons e es ih =>
      intro p h hsync hs
      apply ih _ _ ((step_shared p e).synchronized hsync) (hs.after_step hsync e)
      rcases h with hclosing | hover
      · exact hclosing.after_step hs e
      · exact Or.inr (hover.after_step e)

theorem closing_begin (isWait : Bool) (hdone : p.isDone = false) (hstop : p.isStop = false)
    (hattached : AllAttached p) : Closing (begin p (.stop isWait)) := by
  cases isWait with
  | false =>
      have hbegin : begin p (.stop false) = { p with isStop := true, caller := .flagging 0 } := by
        simp [begin, hstop]
      rw [hbegin]
      exact ⟨rfl, Or.inr rfl, hattached⟩
  | true =>
      have hbegin : begin p (.stop true) = { p with isDone := true, caller := .waking } := by
        simp [begin, hdone, hstop]
      rw [hbegin]
      exact ⟨rfl, Or.inl rfl, hattached⟩

/-- A pool that is open for calls and gave no thread up. -/
structure Open (p : State τ) : Prop where
  outside : p.caller = .outside
  isDone : p.isDone = false
  isStop : p.isStop = false
  attached : AllAttached p

theorem run_stop (h : Open p) (isWait : Bool) (fs : List (Event τ)) :
    run step p (.call (.stop isWait) :: fs) = run step (begin p (.stop isWait)) fs := by
  rw [run_cons, show (step p (.call (.stop isWait))).1 = begin p (.stop isWait) from
    if_pos h.outside]

theorem Open.begin_stop {es : List (Event τ)} (h : Open (run step init es)) (isWait : Bool) :
    Synchronized (begin (run step init es) (.stop isWait)).toShared ∧
      Ordered (begin (run step init es) (.stop isWait)) := by
  have hcall : (step (run step init es) (.call (.stop isWait))).1 =
      begin (run step init es) (.stop isWait) := if_pos h.outside
  rw [← hcall]
  exact ⟨(step_shared _ _).synchronized (synchronized_run es),
    (ordered_run es).after_step (synchronized_run es) _⟩

theorem Open.over_after_stop {es fs : List (Event τ)} {isWait : Bool}
    (h : Open (run step init es))
    (hend : (run step init (es ++ .call (.stop isWait) :: fs)).caller = .outside) :
    Over (run step init (es ++ .call (.stop isWait) :: fs)) := by
  rw [run_append, run_stop h] at hend ⊢
  obtain ⟨hsync, hs⟩ := h.begin_stop isWait
  exact (closing_begin isWait h.isDone h.isStop h.attached).after_run hsync hs hend

/-- Whichever `stop` was called and has come to its end, no functor is started or finished any
more, whatever is pushed or called later. -/
theorem silent_after_stop (es fs gs : List (Event τ)) (isWait : Bool)
    (h : Open (run step init es))
    (hend : (run step init (es ++ .call (.stop isWait) :: fs)).caller = .outside) :
    ∀ o ∈ trace step (run step init (es ++ .call (.stop isWait) :: fs)) gs,
      o.begun = [] ∧ o.ended = [] :=
  (h.over_after_stop hend).run_silent gs

theorem Over.running (h : Over p) : p.running = 0 := by
  apply List.sum_eq_zero
  intro m hm
  obtain ⟨w, hw, rfl⟩ := List.mem_map.mp hm
  have hret : w.phase = .returned := h.returned w hw
  simp only [hret]
  rfl

/-- `stop(true)` runs the queue out. A functor that is queued when it is called, and whose push
is over, has been run or was taken out by `pop` when it comes to its end. -/
theorem ended_of_stop (es fs : List (Event τ)) (h : Open (run step init es))
    (hthreads : (run step init es).threads ≠ []) {f : τ} (hf : f ∈ (run step init es).q)
    (hpending : f ∉ (run step init es).pending)
    (hend : (run step init (es ++ .call (.stop true) :: fs)).caller = .outside) :
    ∃ o ∈ trace step (run step init es) (.call (.stop true) :: fs),
      f ∈ o.ended ∨ o = .popped f := by
  have hover := h.over_after_stop hend
  rw [run_append, run_stop h] at hend hover
  have hcall : (step (run step init es) (.call (.stop true))).1 =
      begin (run step init es) (.stop true) := if_pos h.outside
  have howed := owed_begin (synchronized_run es) (ordered_run es) h.outside h.isDone h.isStop
    hthreads hf hpending
  obtain ⟨hsync, hs⟩ := h.begin_stop true
  rw [trace_cons, hcall]
  rcases howed.after_run hsync hs fs with ⟨o, ho, hbegun | hpopped⟩ | hstill
  · have hrunning := running_run (begin (run step init es) (.stop true)) fs
    rw [hover.running, zero_add] at hrunning
    have hmem : f ∈ ((trace step (begin (run step init es) (.stop true)) fs).flatMap
        Output.ended : Multiset τ) := by
      rw [hrunning, Multiset.mem_add]
      exact Or.inr (List.mem_flatMap.mpr ⟨o, ho, hbegun⟩)
    obtain ⟨o', ho', hended⟩ := List.mem_flatMap.mp hmem
    exact ⟨o', List.mem_cons_of_mem _ ho', Or.inl hended⟩
  · exact ⟨o, List.mem_cons_of_mem _ ho, Or.inr hpopped⟩
  · rcases hstill.waits with hwaits | hwaits <;>
      · rw [hend] at hwaits
        cases hwaits

/-- A pool with one worker that has one functor to run. -/
def oneFunctor : List (Event ℕ) :=
  [.call (.resize 1), .caller, .caller, .push 7, .notifyOne 0 0]

/-- The worker takes the functor up, is told to finish, runs it to its end and returns. -/
def runOut : List (Event ℕ) :=
  [.worker 0, .caller] ++ List.replicate 5 (.worker 0) ++ List.replicate 3 .caller

theorem open_oneFunctor : Open (run step init oneFunctor) := by
  constructor <;> decide

theorem ended_of_stop_oneFunctor :
    ∃ o ∈ trace step (run step init oneFunctor) (.call (.stop true) :: runOut),
      7 ∈ o.ended ∨ o = .popped 7 :=
  ended_of_stop oneFunctor runOut open_oneFunctor (by decide) (by decide) (by decide) (by decide)

end ForexSuite.ThreadPool
