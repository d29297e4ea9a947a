import ForexSuite.ThreadPoolWakeups

/-!
# Calls of `resize` and `stop`

What a call has done to the threads of the pool when it is at a given place. A
thread that was told to finish, by its flag or by `isDone`, does not go to sleep
again once it has been woken, and it returns only when it was told to.
-/
namespace ForexSuite.ThreadPool

open EventMachine IndexedList ListUpdates

variable {τ : Type*}

/-- What one step leaves of a worker: flags stay raised, a thread that has returned stays so,
and the ways to sleep are the tests of `isDone` and of the flag. -/
structure Later (isDone : Bool) (w w' : Worker τ) : Prop where
  flag : w.flag = true → w'.flag = true
  returned : w.phase = .returned → w'.phase = .returned
  asleep : w'.phase = .asleep → w.phase = .asleep ∨ w.phase = .readsFlag ∧ w.flag = false
  readsFlag : w'.phase = .readsFlag →
    w.phase = .readsFlag ∨ w.phase = .readsDone ∧ isDone = false

variable {s s' : Shared τ} {fs : List τ} {o : Output τ} {b : Bool}

theorem Later.refl (w : Worker τ) : Later b w w :=
  ⟨id, id, Or.inl, Or.inl⟩

theorem Later.of_phase {w : Worker τ} {p : Phase τ} (hw : w.phase ≠ .returned)
    (ha : p ≠ .asleep) (hf : p ≠ .readsFlag) : Later b w { w with phase := p } :=
  ⟨id, fun h => absurd h hw, fun h => absurd h ha, fun h => absurd h hf⟩

/-- `R` holds between a worker before a step and the same worker after it. -/
def Throughout (R : Worker τ → Worker τ → Prop) (s s' : Shared τ) : Prop :=
  ∀ (i : ℕ) (w w' : Worker τ), s.workers[i]? = some w → s'.workers[i]? = some w' → R w w'

section Throughout

variable {R : Worker τ → Worker τ → Prop}

theorem Throughout.of_eq (hR : ∀ w, R w w) (hs : s'.workers = s.workers) : Throughout R s s' := by
  intro i w w' hw hw'
  rw [hs, hw, Option.some_inj] at hw'
  exact hw' ▸ hR w

theorem Throughout.of_set (hR : ∀ w, R w w) {i : ℕ} {w : Worker τ} {p : Phase τ}
    (hs : s'.workers = s.workers.set i { w with phase := p }) (hw : s.workers[i]? = some w)
    (hp : R w { w with phase := p }) : Throughout R s s' := by
  intro j v v' hv hv'
  rw [hs] at hv'
  rcases getElem?_set_eq_some hv' with ⟨rfl, rfl⟩ | ⟨-, hold⟩
  · rw [hw, Option.some_inj] at hv
    exact hv ▸ hp
  · rw [hv, Option.some_inj] at hold
    exact hold ▸ hR v

theorem Throughout.of_raiseFlag (hR : ∀ w, R w w) (hflag : ∀ w, R w { w with flag := true })
    (i : ℕ) : Throughout R s (s.raiseFlag i) := by
  intro j v v' hv hv'
  rw [Shared.raiseFlag, List.getElem?_modify, hv] at hv'
  split_ifs at hv'
  · obtain rfl : _ = v' := by simpa using hv'
    exact hflag v
  · obtain rfl : v = v' := by simpa using hv'
    exact hR v

theorem Throughout.of_notifyAll (hwake : ∀ w, R w w.wake) : Throughout R s s.notifyAll := by
  intro j v v' hv hv'
  rw [Shared.notifyAll, List.getElem?_map, hv, Option.map_some, Option.some_inj] at hv'
  exact hv' ▸ hwake v

theorem Throughout.of_spawn (hR : ∀ w, R w w) (index : ℕ) : Throughout R s (s.spawn index) := by
  intro j v v' hv hv'
  have hj := (List.getElem?_eq_some_iff.mp hv).1
  rw [Shared.spawn, List.getElem?_append_left hj, hv, Option.some_inj] at hv'
  exact hv' ▸ hR v

end Throughout

theorem WorkerStep.later {i : ℕ} {w : Worker τ} (h : WorkerStep s i w s' o)
    (hw : s.workers[i]? = some w) : Throughout (Later s.isDone) s s' := by
  have hgo {p : Phase τ} (hs : s'.workers = s.workers.set i { w with phase := p })
      (hp : Later s.isDone w { w with phase := p }) : Throughout (Later s.isDone) s s' :=
    Throughout.of_set Later.refl hs hw hp
  cases h with
  | take f q hphase hq | takeLocked f q hphase hq =>
      exact hgo rfl (Later.of_phase (by rw [hphase]; nofun) nofun nofun)
  | miss hphase hq | missLocked hphase hq | lock hphase hmutex | relock hphase hmutex
  | done hphase hdone | flagged hphase hflag =>
      exact hgo rfl (Later.of_phase (by rw [hphase]; nofun) nofun nofun)
  | finish f hphase =>
      apply hgo rfl
      split_ifs <;> exact Later.of_phase (by rw [hphase]; nofun) nofun nofun
  | notDone hphase hdone =>
      have hne : w.phase ≠ .returned := by rw [hphase]; nofun
      exact hgo rfl ⟨id, fun h => absurd h hne, nofun, fun _ => Or.inr ⟨hphase, hdone⟩⟩
  | sleep hphase hflag =>
      have hne : w.phase ≠ .returned := by rw [hphase]; nofun
      exact hgo rfl ⟨id, fun h => absurd h hne, fun _ => Or.inr ⟨hphase, hflag⟩, nofun⟩
  | wait hwait => exact Throughout.of_eq Later.refl rfl

theorem Later.wake (w : Worker τ) : Later b w w.wake := by
  rw [Worker.wake]
  split_ifs with hphase
  · exact Later.of_phase (by simp [Phase.isAsleep_iff.mp hphase]) (by simp) (by simp)
  · exact Later.refl w

theorem SharedStep.later (h : SharedStep s fs s' o) : Throughout (Later s.isDone) s s' := by
  cases h with
  | spawn index => exact Throughout.of_spawn Later.refl index
  | raiseFlag i =>
      exact Throughout.of_raiseFlag Later.refl (fun _ => ⟨fun _ => rfl, id, Or.inl, Or.inl⟩) i
  | notifyAll hmutex => exact Throughout.of_notifyAll Later.wake
  | notifyOne k i w hmutex hk hw hphase | spurious i w hw hphase =>
      exact Throughout.of_set Later.refl rfl hw
        (Later.of_phase (by rw [hphase]; nofun) nofun nofun)
  | worker i w _ _ hw hstep => exact hstep.later hw
  | _ => exact Throughout.of_eq Later.refl rfl

/-- Apart from the thread that calls, nobody raises a flag. -/
def SameFlag (w w' : Worker τ) : Prop := w'.flag = w.flag

theorem WorkerStep.flag {i : ℕ} {w : Worker τ} (h : WorkerStep s i w s' o)
    (hw : s.workers[i]? = some w) : Throughout SameFlag s s' := by
  obtain ⟨p, hset, -⟩ := h.functors hw
  exact Throughout.of_set (fun _ => rfl) hset hw rfl

theorem notifyAll_flag : Throughout SameFlag s s.notifyAll := by
  apply Throughout.of_notifyAll
  intro w
  rw [Worker.wake]
  split_ifs <;> rfl

theorem notifyOne_flag (k i : ℕ) : Throughout SameFlag s (s.notifyOne k i) := by
  rw [Shared.notifyOne]
  split_ifs
  · split
    · exact Throughout.of_eq (fun _ => rfl) rfl
    · next w hw =>
        split_ifs
        · exact Throughout.of_set (fun _ => rfl) rfl hw rfl
        · exact Throughout.of_eq (fun _ => rfl) rfl
  · exact Throughout.of_eq (fun _ => rfl) rfl
  · exact Throughout.of_eq (fun _ => rfl) rfl

theorem spurious_flag (i : ℕ) : Throughout SameFlag s (s.spurious i) := by
  rw [Shared.spurious]
  split
  · exact Throughout.of_eq (fun _ => rfl) rfl
  · next w hw =>
      split_ifs
      · exact Throughout.of_set (fun _ => rfl) rfl hw rfl
      · exact Throughout.of_eq (fun _ => rfl) rfl

theorem notifyOne_isDone (k i : ℕ) : (s.notifyOne k i).isDone = s.isDone := by
  rw [Shared.notifyOne]
  split_ifs
  · split
    · rfl
    · split_ifs <;> rfl
  · rfl
  · rfl

theorem spurious_isDone (i : ℕ) : (s.spurious i).isDone = s.isDone := by
  rw [Shared.spurious]
  split
  · rfl
  · split_ifs <;> rfl

theorem WorkerStep.length {i : ℕ} {w : Worker τ} (h : WorkerStep s i w s' o)
    (hw : s.workers[i]? = some w) : s'.workers.length = s.workers.length := by
  obtain ⟨p, hset, -⟩ := h.functors hw
  rw [hset, List.length_set]

theorem notifyOne_length (k i : ℕ) : (s.notifyOne k i).workers.length = s.workers.length := by
  rw [Shared.notifyOne]
  split_ifs
  · split
    · rfl
    · split_ifs
      · exact List.length_set
      · rfl
  · rfl
  · rfl

theorem spurious_length (i : ℕ) : (s.spurious i).workers.length = s.workers.length := by
  rw [Shared.spurious]
  split
  · rfl
  · split_ifs
    · exact List.length_set
    · rfl

/-- What a step of anyone but the caller leaves alone. -/
structure Aside (p p' : State τ) : Prop where
  threads : p'.threads = p.threads
  isStop : p'.isStop = p.isStop
  isDone : p'.isDone = p.isDone
  caller : p'.caller = p.caller
  length : p'.workers.length = p.workers.length
  flag : Throughout SameFlag p.toShared p'.toShared
  later : Throughout (Later p.isDone) p.toShared p'.toShared

theorem WorkerStep.isDone {i : ℕ} {w : Worker τ} (h : WorkerStep s i w s' o) :
    s'.isDone = s.isDone := by
  cases h <;> rfl

/-- A step is one of the caller, the beginning of a call, or leaves the caller aside. -/
theorem step_cases (p : State τ) (e : Event τ) :
    e = .caller ∨ (∃ c, e = .call c ∧ p.caller = .outside ∧ (step p e).1 = begin p c) ∨
      Aside p (step p e).1 := by
  have hlater := (step_shared p e).later
  cases e with
  | caller => exact Or.inl rfl
  | call c =>
      right
      by_cases hout : p.caller = .outside
      · left
        exact ⟨c, rfl, hout, if_pos hout⟩
      · right
        have hsame : (step p (.call c)).1 = p := if_neg hout
        rw [hsame] at hlater ⊢
        exact ⟨rfl, rfl, rfl, rfl, rfl, Throughout.of_eq (fun _ => rfl) rfl, hlater⟩
  | push f =>
      right; right
      exact ⟨rfl, rfl, rfl, rfl, rfl, Throughout.of_eq (fun _ => rfl) rfl, hlater⟩
  | notifyOne k i =>
      right; right
      exact ⟨rfl, rfl, notifyOne_isDone k i, rfl, notifyOne_length k i, notifyOne_flag k i, hlater⟩
  | spurious i =>
      right; right
      exact ⟨rfl, rfl, spurious_isDone i, rfl, spurious_length i, spurious_flag i, hlater⟩
  | worker i =>
      right; right
      revert hlater
      simp only [step]
      cases hw : p.workers[i]? with
      | none =>
          exact fun hlater =>
            ⟨rfl, rfl, rfl, rfl, rfl, Throughout.of_eq (fun _ => rfl) rfl, hlater⟩
      | some w =>
          intro hlater
          have hstep := setThread_step p.toShared i w
          exact ⟨rfl, rfl, hstep.isDone, rfl, hstep.length hw, hstep.flag hw, hlater⟩
  | pop =>
      right; right
      revert hlater
      simp only [step]
      cases hq : p.q with
      | nil | cons f q =>
          exact fun hlater =>
            ⟨rfl, rfl, rfl, rfl, rfl, Throughout.of_eq (fun _ => rfl) rfl, hlater⟩

/-! ### Where a call has got to -/

/-- `P` holds of the worker of the `k`-th thread that the pool owns. -/
def Attached (P : Worker τ → Prop) (p : State τ) (k : ℕ) : Prop :=
  ∀ i w, p.threads[k]? = some i → p.workers[i]? = some w → P w

/-- A worker that does not go to sleep again. -/
def Obedient (isDone : Bool) (w : Worker τ) : Prop :=
  w.phase ≠ .asleep ∧ (w.flag = true ∨ isDone = true ∧ w.phase ≠ .readsFlag)

theorem Obedient.later {w w' : Worker τ} (h : Obedient b w) (hlater : Later b w w') :
    Obedient b w' := by
  constructor
  · intro hasleep
    rcases hlater.asleep hasleep with hw | ⟨hw, hflag⟩
    · exact h.1 hw
    · rcases h.2 with hset | ⟨-, hne⟩
      · rw [hset] at hflag
        cases hflag
      · exact hne hw
  · rcases h.2 with hset | ⟨hdone, hne⟩
    · exact Or.inl (hlater.flag hset)
    · right
      refine ⟨hdone, fun hreads => ?_⟩
      rcases hlater.readsFlag hreads with hw | ⟨-, hnot⟩
      · exact hne hw
      · rw [hdone] at hnot
        cases hnot

def Unflagged (w : Worker τ) : Prop := w.flag = false

def Flagged (w : Worker τ) : Prop := w.flag = true

def Returned (w : Worker τ) : Prop := w.phase = .returned

/-- What a call has done to the threads of the pool by the time it is where it is. -/
def Progress (p : State τ) : Prop :=
  match p.caller with
  | .outside | .growing _ | .clearingQueue =>
      p.isDone = false → p.isStop = false → ∀ k, Attached Unflagged p k
  | .detaching i nThreads =>
      p.isDone = false ∧ nThreads ≤ i ∧ ∀ k < i, Attached Unflagged p k
  | .wakingDetached nThreads | .shrinking nThreads =>
      p.isDone = false ∧ ∀ k < nThreads, Attached Unflagged p k
  | .flagging i => p.isStop = true ∧ ∀ k < i, Attached Flagged p k
  | .clearing => p.isStop = true ∧ ∀ k, Attached Flagged p k
  | .waking => (p.isDone = true ∨ p.isStop = true) ∧
      (p.isDone = false → ∀ k, Attached Flagged p k)
  | .joining i => (p.isDone = true ∨ p.isStop = true) ∧
      (∀ k, Attached (Obedient p.isDone) p k) ∧ ∀ k < i, Attached Returned p k
  | .clearingRest => (p.isDone = true ∨ p.isStop = true) ∧ ∀ k, Attached Returned p k

structure Ordered (p : State τ) : Prop where
  valid : ∀ i ∈ p.threads, i < p.workers.length
  nodup : p.threads.Nodup
  returned : ∀ w ∈ p.workers, Returned w → w.flag = true ∨ p.isDone = true
  progress : Progress p

variable {p p' : State τ}

theorem Attached.keep {P P' : Worker τ → Prop} {R : Worker τ → Worker τ → Prop} {k : ℕ}
    (h : Attached P p k) (hvalid : ∀ i ∈ p.threads, i < p.workers.length)
    (hthreads : p'.threads = p.threads) (hR : Throughout R p.toShared p'.toShared)
    (hP : ∀ w w', P w → R w w' → P' w') : Attached P' p' k := by
  intro i w' hi hw'
  rw [hthreads] at hi
  have hlt := hvalid i (List.mem_of_getElem? hi)
  have hw := List.getElem?_eq_getElem hlt
  exact hP _ _ (h i _ hi hw) (hR i _ w' hw hw')

theorem Aside.progress (h : Aside p p') (hs : Ordered p) : Progress p' := by
  have hun {k : ℕ} (hk : Attached Unflagged p k) : Attached Unflagged p' k :=
    hk.keep hs.valid h.threads h.flag fun _ _ hw hflag => hflag.trans hw
  have hfl {k : ℕ} (hk : Attached Flagged p k) : Attached Flagged p' k :=
    hk.keep hs.valid h.threads h.flag fun _ _ hw hflag => hflag.trans hw
  have hret {k : ℕ} (hk : Attached Returned p k) : Attached Returned p' k :=
    hk.keep hs.valid h.threads h.later fun _ _ hw hlater => hlater.returned hw
  have hob {k : ℕ} (hk : Attached (Obedient p.isDone) p k) : Attached (Obedient p.isDone) p' k :=
    hk.keep hs.valid h.threads h.later fun _ _ hw hlater => hw.later hlater
  have hprogress := hs.progress
  rw [Progress] at hprogress ⊢
  rw [h.caller, h.isDone, h.isStop]
  cases hcaller : p.caller with
  | outside | growing nThreads | clearingQueue =>
      rw [hcaller] at hprogress
      exact fun hdone hstop k => hun (hprogress hdone hstop k)
  | detaching i nThreads =>
      rw [hcaller] at hprogress
      exact ⟨hprogress.1, hprogress.2.1, fun k hk => hun (hprogress.2.2 k hk)⟩
  | wakingDetached nThreads | shrinking nThreads =>
      rw [hcaller] at hprogress
      exact ⟨hprogress.1, fun k hk => hun (hprogress.2 k hk)⟩
  | flagging i =>
      rw [hcaller] at hprogress
      exact ⟨hprogress.1, fun k hk => hfl (hprogress.2 k hk)⟩
  | clearing =>
      rw [hcaller] at hprogress
      exact ⟨hprogress.1, fun k => hfl (hprogress.2 k)⟩
  | waking =>
      rw [hcaller] at hprogress
      exact ⟨hprogress.1, fun hdone k => hfl (hprogress.2 hdone k)⟩
  | joining i =>
      rw [hcaller] at hprogress
      exact ⟨hprogress.1, fun k => hob (hprogress.2.1 k), fun k hk => hret (hprogress.2.2 k hk)⟩
  | clearingRest =>
      rw [hcaller] at hprogress
      exact ⟨hprogress.1, fun k => hret (hprogress.2 k)⟩

/-- A thread returns when it is told to. -/
def ReturnsTold (s : Shared τ) : Prop :=
  ∀ w ∈ s.workers, Returned w → w.flag = true ∨ s.isDone = true

theorem ReturnsTold.set (h : ReturnsTold s) {i : ℕ} {w : Worker τ} {p : Phase τ}
    (hs : s'.workers = s.workers.set i { w with phase := p }) (hdone : s'.isDone = s.isDone)
    (hp : p = .returned → w.flag = true ∨ s.isDone = true) : ReturnsTold s' := by
  intro v hv hret
  rw [hdone]
  rw [hs] at hv
  rcases List.mem_or_eq_of_mem_set hv with hv | rfl
  · exact h v hv hret
  · exact hp hret

theorem WorkerStep.returnsTold {i : ℕ} {w : Worker τ} (h : WorkerStep s i w s' o)
    (hs : ReturnsTold s) : ReturnsTold s' := by
  cases h with
  | finish f hphase =>
      have hp : (if w.flag then Phase.returned else .popping : Phase τ) = .returned →
          w.flag = true ∨ s.isDone = true := by
        split_ifs with hflag
        · exact fun _ => Or.inl hflag
        · nofun
      exact hs.set rfl rfl hp
  | done hphase hdone => exact hs.set rfl rfl fun _ => Or.inr hdone
  | flagged hphase hflag => exact hs.set rfl rfl fun _ => Or.inl hflag
  | wait hwait => exact hs
  | _ => exact hs.set rfl rfl (by simp)

theorem SharedStep.returnsTold (h : SharedStep s fs s' o) (hs : ReturnsTold s) :
    ReturnsTold s' := by
  cases h with
  | setDone => exact fun w hw _ => Or.inr rfl
  | spawn index =>
      intro w hw hret
      rcases List.mem_append.mp hw with hw | hw
      · exact hs w hw hret
      · rw [List.mem_singleton.mp hw] at hret
        cases hret
  | raiseFlag i =>
      intro w hw hret
      obtain ⟨j, hj⟩ := List.mem_iff_getElem?.mp hw
      rw [Shared.raiseFlag, List.getElem?_modify] at hj
      cases hv : s.workers[j]? with
      | none =>
          rw [hv] at hj
          cases hj
      | some v =>
          rw [hv] at hj
          split_ifs at hj
          · obtain rfl : _ = w := by simpa using hj
            exact Or.inl rfl
          · obtain rfl : v = w := by simpa using hj
            exact hs v (List.mem_of_getElem? hv) hret
  | notifyAll hmutex =>
      intro w hw hret
      obtain ⟨v, hv, rfl⟩ := List.mem_map.mp hw
      rw [Returned, Worker.wake] at hret
      rw [Worker.wake]
      split_ifs at hret ⊢
      exact hs v hv hret
  | notifyOne k i w hmutex hk hw hphase | spurious i w hw hphase => exact hs.set rfl rfl (by simp)
  | worker i w _ _ hw hstep => exact hstep.returnsTold hs
  | _ => exact hs

theorem begin_progress (c : Call) (hs : Ordered p) (hout : p.caller = .outside) :
    Progress (begin p c) := by
  have hprogress := hs.progress
  rw [Progress, hout] at hprogress
  cases c with
  | resize nThreads =>
      simp only [begin]
      split_ifs with hrun hle
      · exact hprogress
      · rw [Bool.and_eq_true, Bool.not_eq_true', Bool.not_eq_true'] at hrun
        exact ⟨hrun.2, Nat.le_of_not_le hle, fun k _ => hprogress hrun.2 hrun.1 k⟩
      · rw [Progress, hout]
        exact hprogress
  | stop isWait =>
      cases isWait with
      | false =>
          simp only [begin]
          split_ifs
          · exact hs.progress
          · exact ⟨rfl, fun k hk => absurd hk (Nat.not_lt_zero k)⟩
      | true =>
          simp only [begin]
          split_ifs
          · exact hs.progress
          · exact ⟨Or.inl rfl, by simp⟩
  | clearQueue => exact hprogress

theorem Attached.of_eq {P : Worker τ → Prop} {k : ℕ} (h : Attached P p k)
    (hthreads : p'.threads = p.threads) (hworkers : p'.workers = p.workers) :
    Attached P p' k := by
  rw [Attached, hthreads, hworkers]
  exact h

theorem attached_of_le {P : Worker τ → Prop} {k : ℕ} (hk : p.threads.length ≤ k) :
    Attached P p k := by
  intro i w hi
  rw [List.getElem?_eq_none hk] at hi
  cases hi

theorem raiseFlag_threads (k : ℕ) : (p.raiseFlag k).threads = p.threads := by
  rw [State.raiseFlag]
  split <;> rfl

theorem raiseFlag_isDone (k : ℕ) : (p.raiseFlag k).isDone = p.isDone := by
  rw [State.raiseFlag]
  split <;> rfl

theorem raiseFlag_isStop (k : ℕ) : (p.raiseFlag k).isStop = p.isStop := by
  rw [State.raiseFlag]
  split <;> rfl

theorem raiseFlag_attached (k : ℕ) : Attached Flagged (p.raiseFlag k) k := by
  intro i w hi hw
  rw [raiseFlag_threads] at hi
  rw [State.raiseFlag, hi] at hw
  change (p.workers.modify i fun w => { w with flag := true })[i]? = some w at hw
  rw [List.getElem?_modify_eq] at hw
  obtain ⟨v, -, rfl⟩ := Option.map_eq_some_iff.mp hw
  rfl

/-- The flag that is raised is that of one thread. -/
theorem Attached.raiseFlag_ne {P : Worker τ → Prop} {k l : ℕ} (h : Attached P p k)
    (hnodup : p.threads.Nodup) (hkl : k ≠ l) : Attached P (p.raiseFlag l) k := by
  intro i w hi hw
  rw [raiseFlag_threads] at hi
  rw [State.raiseFlag] at hw
  split at hw
  · exact h i w hi hw
  · next j hj =>
      have hij : j ≠ i := by
        rintro rfl
        obtain ⟨hkl', hget⟩ := List.getElem?_eq_some_iff.mp hi
        obtain ⟨hl, hget'⟩ := List.getElem?_eq_some_iff.mp hj
        exact hkl ((hnodup.getElem_inj_iff).mp (hget.trans hget'.symm))
      change (p.workers.modify j fun w => { w with flag := true })[i]? = some w at hw
      rw [List.getElem?_modify_ne _ _ hij] at hw
      exact h i w hi hw

theorem Attached.raiseFlag_flagged {k l : ℕ} (h : Attached Flagged p k)
    (hvalid : ∀ i ∈ p.threads, i < p.workers.length) : Attached Flagged (p.raiseFlag l) k :=
  h.keep hvalid (raiseFlag_threads l) (p.raiseFlag_step l).later
    fun _ _ hw hlater => hlater.flag hw

theorem hasReturned_attached {k : ℕ} (h : p.hasReturned k = true) : Attached Returned p k := by
  intro i w hi hw
  rw [State.hasReturned, hi] at h
  simp only [hw, Option.any_some] at h
  exact Phase.hasReturned_iff.mp h

/-- After `notify_all` nobody who was told to finish sleeps or is about to. -/
theorem notifyAll_obedient {k : ℕ} (hsync : Synchronized p.toShared)
    (hmutex : p.mutex = none) (htold : p.isDone = true ∨ Attached Flagged p k) (c : Caller) :
    Attached (Obedient p.isDone) { p with toShared := p.toShared.notifyAll, caller := c } k := by
  intro i w hi hw
  change (p.workers.map Worker.wake)[i]? = some w at hw
  rw [List.getElem?_map] at hw
  obtain ⟨v, hv, rfl⟩ := Option.map_eq_some_iff.mp hw
  have hmem : v.wake ∈ p.toShared.notifyAll.workers :=
    List.mem_map.mpr ⟨v, List.mem_of_getElem? hv, rfl⟩
  refine ⟨notifyAll_ne_asleep _ hmem, ?_⟩
  rcases htold with hdone | hflag
  · right
    refine ⟨hdone, fun hreads => ?_⟩
    have hmissed := hsync.exclusive.not_missed hmutex (List.mem_of_getElem? hv)
    rcases (Later.wake (b := true) v).readsFlag hreads with hv | ⟨-, hnot⟩
    · rw [hv] at hmissed
      cases hmissed
    · cases hnot
  · left
    exact (Later.wake (b := true) v).flag (hflag i v hi hv)

theorem spawn_unflagged (hvalid : ∀ i ∈ p.threads, i < p.workers.length)
    (h : ∀ k, Attached Unflagged p k) (k : ℕ) : Attached Unflagged p.spawn k := by
  intro i w hi hw
  change (p.threads ++ [p.workers.length])[k]? = some i at hi
  change (p.workers ++ [⟨p.threads.length, false, .popping⟩])[i]? = some w at hw
  rcases Nat.lt_or_ge k p.threads.length with hk | hk
  · rw [List.getElem?_append_left hk] at hi
    rw [List.getElem?_append_left (hvalid i (List.mem_of_getElem? hi))] at hw
    exact h k i w hi hw
  · rw [List.getElem?_append_right hk] at hi
    obtain rfl : p.workers.length = i := by
      have hmem := List.mem_of_getElem? hi
      exact (List.mem_singleton.mp hmem).symm
    rw [List.getElem?_concat_length, Option.some_inj] at hw
    exact hw ▸ rfl

theorem resume_progress (hsync : Synchronized p.toShared) (hs : Ordered p) :
    Progress (resume p).1 := by
  have hprogress := hs.progress
  rw [Progress] at hprogress
  cases hcaller : p.caller with
  | outside =>
      simp only [resume, hcaller]
      exact hs.progress
  | growing nThreads =>
      rw [hcaller] at hprogress
      simp only [resume, hcaller]
      split_ifs
      · rw [Progress, show p.spawn.caller = .growing nThreads from hcaller]
        exact fun hdone hstop => spawn_unflagged hs.valid (hprogress hdone hstop)
      · exact hprogress
  | detaching i nThreads =>
      rw [hcaller] at hprogress
      simp only [resume, hcaller]
      split_ifs with hi
      · refine ⟨(raiseFlag_isDone (i - 1)).trans hprogress.1, Nat.le_sub_one_of_lt hi, ?_⟩
        intro k hk
        have hold := hprogress.2.2 k (by omega)
        exact (hold.raiseFlag_ne hs.nodup hk.ne).of_eq rfl rfl
      · exact ⟨hprogress.1, fun k hk => hprogress.2.2 k (hk.trans_le hprogress.2.1)⟩
  | wakingDetached nThreads =>
      rw [hcaller] at hprogress
      simp only [resume, hcaller, notifyAll]
      split_ifs with hmutex
      · refine ⟨hprogress.1, fun k hk => ?_⟩
        exact (hprogress.2 k hk).keep hs.valid rfl notifyAll_flag fun _ _ hw hflag => hflag.trans hw
      · exact hs.progress
  | shrinking nThreads =>
      rw [hcaller] at hprogress
      simp only [resume, hcaller]
      intro _ _ k i w hi hw
      change (p.threads.take nThreads)[k]? = some i at hi
      rw [List.getElem?_take] at hi
      split_ifs at hi with hk
      exact hprogress.2 k hk i w hi hw
  | flagging i =>
      rw [hcaller] at hprogress
      simp only [resume, hcaller]
      split_ifs with hi
      · refine ⟨(raiseFlag_isStop i).trans hprogress.1, fun k hk => ?_⟩
        · rcases Nat.lt_succ_iff_lt_or_eq.mp hk with hlt | rfl
          · exact ((hprogress.2 k hlt).raiseFlag_flagged hs.valid).of_eq rfl rfl
          · exact (raiseFlag_attached k).of_eq rfl rfl
      · refine ⟨hprogress.1, fun k => ?_⟩
        rcases Nat.lt_or_ge k i with hk | hk
        · exact hprogress.2 k hk
        · exact attached_of_le ((Nat.le_of_not_lt hi).trans hk)
  | clearing =>
      rw [hcaller] at hprogress
      simp only [resume, hcaller, clearQueue]
      cases hq : p.q with
      | nil => exact ⟨Or.inr hprogress.1, fun _ => hprogress.2⟩
      | cons f q => exact hprogress
  | waking =>
      rw [hcaller] at hprogress
      simp only [resume, hcaller, notifyAll]
      split_ifs with hmutex
      · refine ⟨hprogress.1, fun k => ?_, fun k hk => absurd hk (Nat.not_lt_zero k)⟩
        apply notifyAll_obedient hsync hmutex
        cases hdone : p.isDone with
        | true => exact Or.inl rfl
        | false => exact Or.inr (hprogress.2 hdone k)
      · exact hs.progress
  | joining i =>
      rw [hcaller] at hprogress
      simp only [resume, hcaller]
      split_ifs with hi hret
      · refine ⟨hprogress.1, hprogress.2.1, fun k hk => ?_⟩
        rcases Nat.lt_succ_iff_lt_or_eq.mp hk with hlt | rfl
        · exact hprogress.2.2 k hlt
        · exact hasReturned_attached hret
      · exact hs.progress
      · refine ⟨hprogress.1, fun k => ?_⟩
        rcases Nat.lt_or_ge k i with hk | hk
        · exact hprogress.2.2 k hk
        · exact attached_of_le ((Nat.le_of_not_lt hi).trans hk)
  | clearingRest =>
      rw [hcaller] at hprogress
      simp only [resume, hcaller, clearQueue]
      cases hq : p.q with
      | nil =>
          intro _ _ k i w hi
          cases hi
      | cons f q => exact hprogress
  | clearingQueue =>
      rw [hcaller] at hprogress
      simp only [resume, hcaller, clearQueue]
      cases hq : p.q with
      | nil => exact hprogress
      | cons f q => exact hprogress

theorem begin_threads (c : Call) : (begin p c).threads = p.threads := by
  cases c with
  | resize nThreads =>
      simp only [begin]
      split_ifs <;> rfl
  | stop isWait =>
      cases isWait <;>
        simp only [begin] <;>
        split_ifs <;> rfl
  | clearQueue => rfl

/-- The caller starts one thread at a time, and otherwise it only gives threads up. -/
theorem resume_threads :
    (resume p).1 = p.spawn ∨ (resume p).1.threads.Sublist p.threads := by
  cases hcaller : p.caller with
  | growing nThreads =>
      simp only [resume, hcaller]
      split_ifs
      · exact Or.inl rfl
      · exact Or.inr (List.Sublist.refl _)
  | detaching i nThreads | flagging i =>
      right
      simp only [resume, hcaller]
      split_ifs
      · exact (raiseFlag_threads _).symm ▸ List.Sublist.refl _
      · exact List.Sublist.refl _
  | wakingDetached nThreads | waking =>
      right
      simp only [resume, hcaller, notifyAll]
      split_ifs <;> exact List.Sublist.refl _
  | joining i =>
      right
      simp only [resume, hcaller]
      split_ifs <;> exact List.Sublist.refl _
  | shrinking nThreads =>
      right
      simp only [resume, hcaller]
      exact List.take_sublist nThreads p.threads
  | clearing | clearingRest | clearingQueue =>
      right
      simp only [resume, hcaller, clearQueue]
      cases p.q with
      | nil => first | exact List.Sublist.refl _ | exact List.nil_sublist _
      | cons f q => exact List.Sublist.refl _
  | outside =>
      right
      simp only [resume, hcaller]
      exact List.Sublist.refl _

theorem Ordered.spawn (hs : Ordered p) (htold : ReturnsTold p.spawn.toShared)
    (hprogress : Progress p.spawn) : Ordered p.spawn where
  valid := by
    intro i hi
    change i < (p.workers ++ [_]).length
    rw [List.length_append, List.length_singleton]
    rcases List.mem_append.mp hi with hi | hi
    · exact Nat.lt_succ_of_lt (hs.valid i hi)
    · rw [List.mem_singleton.mp hi]
      exact Nat.lt_succ_self _
  nodup := by
    refine hs.nodup.append (List.nodup_singleton _) ?_
    intro i hi hnew
    rw [List.mem_singleton.mp hnew] at hi
    exact Nat.lt_irrefl _ (hs.valid _ hi)
  returned := htold
  progress := hprogress

theorem Ordered.after_step (hsync : Synchronized p.toShared) (hs : Ordered p) (e : Event τ) :
    Ordered (step p e).1 := by
  have hlen := (step_shared p e).length_le
  have htold := (step_shared p e).returnsTold hs.returned
  have hsub (hthreads : (step p e).1.threads.Sublist p.threads)
      (hprogress : Progress (step p e).1) : Ordered (step p e).1 :=
    ⟨fun i hi => (hs.valid i (hthreads.subset hi)).trans_le hlen, hs.nodup.sublist hthreads,
      htold, hprogress⟩
  rcases step_cases p e with rfl | ⟨c, rfl, hout, hbegin⟩ | haside
  · have hprogress := resume_progress hsync hs
    rcases resume_threads (p := p) with hspawn | hthreads
    · have hstep : (step p .caller).1 = p.spawn := hspawn
      rw [hstep] at htold ⊢
      exact hs.spawn htold (hspawn ▸ hprogress)
    · exact hsub hthreads hprogress
  · apply hsub
    · rw [hbegin, begin_threads]
    · rw [hbegin]
      exact begin_progress c hs hout
  · apply hsub
    · rw [haside.threads]
    · exact haside.progress hs

theorem ordered_init : Ordered (init : State τ) where
  valid := nofun
  nodup := List.nodup_nil
  returned := nofun
  progress := fun _ _ _ _ _ => nofun

theorem ordered_run (es : List (Event τ)) : Ordered (run step init es) := by
  suffices hrun : ∀ p : State τ, Synchronized p.toShared → Ordered p →
      Ordered (run step p es) from hrun init synchronized_init ordered_init
  induction es with
  | nil => exact fun _ _ hp => hp
  | cons e es ih =>
      exact fun p hsync hp => ih _ ((step_shared p e).synchronized hsync) (hp.after_step hsync e)

end ForexSuite.ThreadPool
