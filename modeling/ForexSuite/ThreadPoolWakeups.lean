import ForexSuite.ThreadPoolTasks
import Mathlib.Data.List.Perm.Subperm

/-!
# The mutex of the pool and its notifications

`push` queues its functor before it takes the mutex, and a worker tests the queue
under the mutex before it sleeps. So a functor that a worker has missed is one whose
push has still to notify, and no notification is lost: as long as some worker
sleeps, there is another one about to look into the queue for every queued functor
whose push is over.
-/
namespace ForexSuite.ThreadPool

open EventMachine ListUpdates

variable {τ : Type*}

/-- The phases in which a worker holds the mutex. -/
def Phase.holds : Phase τ → Bool
  | .testing | .readsDone | .readsFlag => true
  | _ => false

/-- The phases inside `wait`. -/
def Phase.waits : Phase τ → Bool
  | .testing | .readsDone | .readsFlag | .asleep | .notified => true
  | _ => false

/-- The phases in which a worker has found the queue empty and has not released the mutex
since. -/
def Phase.missed : Phase τ → Bool
  | .readsDone | .readsFlag => true
  | _ => false

/-- The phases from which a worker looks into the queue before it does anything else. -/
def Phase.willPop : Phase τ → Bool
  | .popping | .idle | .testing | .notified => true
  | _ => false

variable {s s' : Shared τ} {fs : List τ} {o : Output τ}

/-! ### Mutual exclusion -/

def Shared.holders (s : Shared τ) : List Bool := s.workers.map fun w => w.phase.holds

/-- The mutex is held by the worker whose phase says so, and by no other. -/
def Exclusive (s : Shared τ) : Prop := ∀ i, s.mutex = some i ↔ s.holders[i]? = some true

theorem holders_getElem? {i : ℕ} {w : Worker τ} (hw : s.workers[i]? = some w) :
    s.holders[i]? = some w.phase.holds := by
  rw [Shared.holders, List.getElem?_map, hw, Option.map_some]

theorem Exclusive.not_holds (h : Exclusive s) {i : ℕ} {w : Worker τ}
    (hw : s.workers[i]? = some w) (hmutex : s.mutex ≠ some i) : w.phase.holds = false := by
  rw [← Bool.not_eq_true]
  intro hholds
  apply hmutex
  rw [h i, holders_getElem? hw, hholds]

section Set

variable {i : ℕ} {w : Worker τ} {p : Phase τ}

theorem holders_set (hw : s.workers[i]? = some w)
    (hs : s'.workers = s.workers.set i { w with phase := p }) (j : ℕ) :
    s'.holders[j]? = if j = i then some p.holds else s.holders[j]? := by
  rw [Shared.holders, hs, List.getElem?_map]
  split_ifs with hj
  · rw [hj, getElem?_set_of_eq_some hw]
    rfl
  · rw [List.getElem?_set_ne (Ne.symm hj), Shared.holders, List.getElem?_map]

theorem Exclusive.set_same (h : Exclusive s) (hw : s.workers[i]? = some w)
    (hs : s'.workers = s.workers.set i { w with phase := p }) (hmutex : s'.mutex = s.mutex)
    (hp : p.holds = w.phase.holds) : Exclusive s' := by
  intro j
  rw [holders_set hw hs, hmutex, h j]
  split_ifs with hj
  · rw [hj, holders_getElem? hw, hp]
  · rfl

theorem Exclusive.set_lock (h : Exclusive s) (hw : s.workers[i]? = some w)
    (hs : s'.workers = s.workers.set i { w with phase := p }) (hfree : s.mutex = none)
    (hmutex : s'.mutex = some i) (hp : p.holds = true) : Exclusive s' := by
  intro j
  rw [holders_set hw hs, hmutex]
  split_ifs with hj
  · simp [hj, hp]
  · rw [← h j, hfree]
    simpa using Ne.symm hj

theorem Exclusive.set_unlock (h : Exclusive s) (hw : s.workers[i]? = some w)
    (hs : s'.workers = s.workers.set i { w with phase := p }) (hholds : w.phase.holds = true)
    (hmutex : s'.mutex = none) (hp : p.holds = false) : Exclusive s' := by
  intro j
  have hheld : s.mutex = some i := by
    rw [h i, holders_getElem? hw, hholds]
  rw [holders_set hw hs, hmutex]
  split_ifs with hj
  · simp [hp]
  · rw [← h j, hheld]
    simpa using Ne.symm hj

end Set

theorem WorkerStep.exclusive {i : ℕ} {w : Worker τ} (h : WorkerStep s i w s' o)
    (hw : s.workers[i]? = some w) (hs : Exclusive s) : Exclusive s' := by
  cases h with
  | take f q hphase hq => exact hs.set_same hw rfl rfl (by rw [hphase]; rfl)
  | miss hphase hq => exact hs.set_same hw rfl rfl (by rw [hphase]; rfl)
  | finish f hphase =>
      have hp : (if w.flag then Phase.returned else .popping : Phase τ).holds = w.phase.holds := by
        rw [hphase]
        split_ifs <;> rfl
      exact hs.set_same hw rfl rfl hp
  | lock hphase hmutex | relock hphase hmutex => exact hs.set_lock hw rfl hmutex rfl rfl
  | takeLocked f q hphase hq => exact hs.set_unlock hw rfl (by rw [hphase]; rfl) rfl rfl
  | missLocked hphase hq => exact hs.set_same hw rfl rfl (by rw [hphase]; rfl)
  | done hphase hdone => exact hs.set_unlock hw rfl (by rw [hphase]; rfl) rfl rfl
  | notDone hphase hdone => exact hs.set_same hw rfl rfl (by rw [hphase]; rfl)
  | flagged hphase hflag => exact hs.set_unlock hw rfl (by rw [hphase]; rfl) rfl rfl
  | sleep hphase hflag => exact hs.set_unlock hw rfl (by rw [hphase]; rfl) rfl rfl
  | wait hwait => exact hs

theorem SharedStep.exclusive (h : SharedStep s fs s' o) (hs : Exclusive s) : Exclusive s' := by
  have hsame (hmutex : s'.mutex = s.mutex) (hholders : s'.holders = s.holders) :
      Exclusive s' := by
    intro j
    rw [hmutex, hholders]
    exact hs j
  cases h with
  | spawn index =>
      intro j
      have hnew : (s.spawn index).holders = s.holders ++ [false] := by
        simp [Shared.holders, Shared.spawn, Phase.holds]
      rw [show (s.spawn index).mutex = s.mutex from rfl, hs j, hnew, List.getElem?_append]
      split_ifs with hj
      · rfl
      · rw [List.getElem?_eq_none (Nat.le_of_not_lt hj)]
        simp [List.getElem?_singleton]
  | raiseFlag i => exact hsame rfl (map_phase_raiseFlag i)
  | notifyAll hmutex => exact hsame rfl (map_phase_notifyAll rfl)
  | notifyOne k i w hmutex hk hw hphase | spurious i w hw hphase =>
      exact hs.set_same hw rfl rfl (by rw [hphase]; rfl)
  | worker i w _ _ hw hstep => exact hstep.exclusive hw hs
  | _ => exact hsame rfl rfl

/-! ### The counter of `n_idle` -/

/-- `nWaiting` is the number of workers inside `wait`. -/
def Counted (s : Shared τ) : Prop := s.nWaiting = (s.weigh fun p => p.waits.toNat : ℕ)

theorem Counted.set (h : Counted s) {i : ℕ} {w : Worker τ} {p : Phase τ}
    (hw : s.workers[i]? = some w) (hs : s'.workers = s.workers.set i { w with phase := p })
    (hn : s'.nWaiting + w.phase.waits.toNat = s.nWaiting + p.waits.toNat) : Counted s' := by
  have hweigh := weigh_set (fun p : Phase τ => p.waits.toNat) hw hs
  rw [Counted] at h ⊢
  omega

theorem WorkerStep.counted {i : ℕ} {w : Worker τ} (h : WorkerStep s i w s' o)
    (hw : s.workers[i]? = some w) (hs : Counted s) : Counted s' := by
  cases h with
  | take f q hphase hq => exact hs.set hw rfl (by rw [hphase]; rfl)
  | miss hphase hq => exact hs.set hw rfl (by rw [hphase]; rfl)
  | finish f hphase =>
      have hp : (if w.flag then Phase.returned else .popping : Phase τ).waits = w.phase.waits := by
        rw [hphase]
        split_ifs <;> rfl
      exact hs.set hw rfl (by rw [hp]; rfl)
  | lock hphase hmutex =>
      apply hs.set hw rfl
      rw [hphase]
      simp [Shared.move, Phase.waits]
  | relock hphase hmutex => exact hs.set hw rfl (by rw [hphase]; rfl)
  | takeLocked f q hphase hq | done hphase hdone | flagged hphase hflag =>
      apply hs.set hw rfl
      rw [hphase]
      simp [Shared.leave, Shared.move, Phase.waits]
  | missLocked hphase hq => exact hs.set hw rfl (by rw [hphase]; rfl)
  | notDone hphase hdone => exact hs.set hw rfl (by rw [hphase]; rfl)
  | sleep hphase hflag => exact hs.set hw rfl (by rw [hphase]; rfl)
  | wait hwait => exact hs

theorem SharedStep.counted (h : SharedStep s fs s' o) (hs : Counted s) : Counted s' := by
  cases h with
  | spawn index =>
      rw [Counted, weigh_spawn]
      exact hs
  | raiseFlag i => exact hs.trans (congrArg Nat.cast (weigh_raiseFlag i).symm)
  | notifyAll hmutex => exact hs.trans (congrArg Nat.cast (weigh_notifyAll rfl).symm)
  | notifyOne k i w hmutex hk hw hphase | spurious i w hw hphase =>
      exact hs.set hw rfl (by rw [hphase]; rfl)
  | worker i w _ _ hw hstep => exact hstep.counted hw hs
  | _ => exact hs

/-! ### No notification is lost -/

/-- What a worker has missed since it took the mutex has still to be notified. -/
def Missed (s : Shared τ) : Prop := ∀ w ∈ s.workers, w.phase.missed = true → s.q.Subperm s.pending

theorem Phase.holds_of_missed {p : Phase τ} (h : p.missed = true) : p.holds = true := by
  cases p <;> first | rfl | cases h

theorem Exclusive.not_missed (h : Exclusive s) (hmutex : s.mutex = none) {w : Worker τ}
    (hw : w ∈ s.workers) : w.phase.missed = false := by
  obtain ⟨i, hi⟩ := List.mem_iff_getElem?.mp hw
  have hfree := h.not_holds hi (by rw [hmutex]; exact Option.some_ne_none i |>.symm)
  rw [← Bool.not_eq_true]
  intro hmissed
  rw [Phase.holds_of_missed hmissed] at hfree
  cases hfree

theorem Missed.set (h : Missed s) {i : ℕ} {w : Worker τ} {p : Phase τ}
    (hs : s'.workers = s.workers.set i { w with phase := p }) (hq : s'.q.Sublist s.q)
    (hpending : s'.pending = s.pending) (hp : p.missed = true → s.q.Subperm s.pending) :
    Missed s' := by
  intro v hv hmissed
  rw [hpending]
  apply hq.subperm.trans
  rw [hs] at hv
  rcases List.mem_or_eq_of_mem_set hv with hv | rfl
  · exact h v hv hmissed
  · exact hp hmissed

theorem WorkerStep.missed {i : ℕ} {w : Worker τ} (h : WorkerStep s i w s' o)
    (hw : s.workers[i]? = some w) (hs : Missed s) : Missed s' := by
  have hmem := List.mem_of_getElem? hw
  cases h with
  | take f q hphase hq | takeLocked f q hphase hq =>
      exact hs.set rfl (by rw [hq]; exact List.sublist_cons_self f q) rfl (by nofun)
  | finish f hphase =>
      have hp : (if w.flag then Phase.returned else .popping : Phase τ).missed = true →
          s.q.Subperm s.pending := by
        split_ifs <;> nofun
      exact hs.set rfl (List.Sublist.refl _) rfl hp
  | missLocked hphase hq =>
      exact hs.set rfl (List.Sublist.refl _) rfl fun _ => by rw [hq]; exact List.nil_subperm
  | notDone hphase hdone =>
      exact hs.set rfl (List.Sublist.refl _) rfl fun _ => hs w hmem (by rw [hphase]; rfl)
  | wait hwait => exact hs
  | _ => exact hs.set rfl (List.Sublist.refl _) rfl (by nofun)

theorem Missed.of_free (h : ∀ w ∈ s.workers, w.phase.missed = false) : Missed s := by
  intro w hw hmissed
  rw [h w hw] at hmissed
  cases hmissed

theorem SharedStep.missed (h : SharedStep s fs s' o) (hex : Exclusive s) (hs : Missed s) :
    Missed s' := by
  cases h with
  | push f =>
      intro w hw hmissed
      exact (List.subperm_append_right [f]).mpr (hs w hw hmissed)
  | dequeue f q _ hq ho =>
      intro w hw hmissed
      have hsub := hs w hw hmissed
      rw [hq] at hsub
      exact (List.sublist_cons_self f q).subperm.trans hsub
  | spawn index =>
      intro w hw hmissed
      rcases List.mem_append.mp hw with hw | hw
      · exact hs w hw hmissed
      · rw [List.mem_singleton.mp hw] at hmissed
        cases hmissed
  | raiseFlag i =>
      intro w hw hmissed
      obtain ⟨v, hv, hvw⟩ := exists_mem_of_map_eq (map_phase_raiseFlag (f := Phase.missed) i) hw
      exact hs v hv (hvw.trans hmissed)
  | notifyAll hmutex =>
      intro w hw hmissed
      obtain ⟨v, hv, hvw⟩ := exists_mem_of_map_eq (map_phase_notifyAll (f := Phase.missed) rfl) hw
      exact hs v hv (hvw.trans hmissed)
  | notifyOne k i w hmutex hk hw hphase =>
      apply Missed.of_free
      intro v hv
      rcases List.mem_or_eq_of_mem_set hv with hv | rfl
      · exact hex.not_missed hmutex hv
      · rfl
  | notifyNobody k hmutex hnone => exact Missed.of_free fun w hw => hex.not_missed hmutex hw
  | spurious i w hw hphase => exact hs.set rfl (List.Sublist.refl _) rfl (by nofun)
  | worker i w _ _ hw hstep => exact hstep.missed hw hs
  | _ => exact hs

/-- While a worker sleeps, every queued functor whose push is over has a worker of its own that
is about to look into the queue. -/
def Awake (s : Shared τ) : Prop :=
  0 < s.weigh (fun p => p.isAsleep.toNat) →
    s.q.length ≤ s.pending.length + s.weigh fun p => p.willPop.toNat

theorem Awake.set (h : Awake s) {i : ℕ} {w : Worker τ} {p : Phase τ}
    (hw : s.workers[i]? = some w) (hs : s'.workers = s.workers.set i { w with phase := p })
    (hp : p.isAsleep = true → s'.q.length ≤ s'.pending.length)
    (hpop : s'.q.length + s.pending.length + w.phase.willPop.toNat ≤
      s'.pending.length + s.q.length + p.willPop.toNat ∨ s'.q = []) : Awake s' := by
  have hasleep := weigh_set (fun p : Phase τ => p.isAsleep.toNat) hw hs
  have hwill := weigh_set (fun p : Phase τ => p.willPop.toNat) hw hs
  intro hpos
  cases hpa : p.isAsleep with
  | true => exact (hp hpa).trans (Nat.le_add_right _ _)
  | false =>
      rw [hpa] at hasleep
      rcases hpop with hpop | hnil
      · have hold := h (by simp only [Bool.toNat_false] at hasleep; omega)
        omega
      · rw [hnil]
        exact Nat.zero_le _

theorem weigh_isAsleep_eq_zero (h : ∀ w ∈ s.workers, w.phase ≠ .asleep) :
    s.weigh (fun p => p.isAsleep.toNat) = 0 := by
  apply List.sum_eq_zero
  intro n hn
  obtain ⟨w, hw, rfl⟩ := List.mem_map.mp hn
  have hawake : w.phase.isAsleep = false :=
    Bool.eq_false_iff.mpr fun hasleep => h w hw (Phase.isAsleep_iff.mp hasleep)
  exact congrArg Bool.toNat hawake

theorem notifyAll_ne_asleep : ∀ w ∈ s.notifyAll.workers, w.phase ≠ .asleep := by
  intro w hw
  obtain ⟨v, -, rfl⟩ := List.mem_map.mp hw
  rw [Worker.wake]
  split_ifs with hphase
  · simp
  · intro hasleep
    exact hphase (Phase.isAsleep_iff.mpr hasleep)

theorem WorkerStep.awake {i : ℕ} {w : Worker τ} (h : WorkerStep s i w s' o)
    (hw : s.workers[i]? = some w) (hmissed : Missed s) (hs : Awake s) : Awake s' := by
  cases h with
  | take f q hphase hq | takeLocked f q hphase hq =>
      refine hs.set hw rfl (by nofun) (Or.inl ?_)
      simp only [hphase, hq, move_q, leave_q, move_pending, leave_pending, List.length_cons,
        Phase.willPop, Bool.toNat_true, Bool.toNat_false]
      omega
  | miss hphase hq | missLocked hphase hq => exact hs.set hw rfl (by nofun) (Or.inr hq)
  | finish f hphase =>
      have hp : (if w.flag then Phase.returned else .popping : Phase τ).isAsleep = true →
          s.q.length ≤ s.pending.length := by
        split_ifs <;> nofun
      refine hs.set hw rfl hp (Or.inl ?_)
      simp [hphase, Phase.willPop, Nat.add_comm]
  | lock hphase hmutex | relock hphase hmutex | done hphase hdone | flagged hphase hflag
  | notDone hphase hdone =>
      refine hs.set hw rfl (by nofun) (Or.inl ?_)
      simp [hphase, Phase.willPop, Nat.add_comm]
  | sleep hphase hflag =>
      refine hs.set hw rfl (fun _ => ?_) (Or.inl ?_)
      · exact (hmissed w (List.mem_of_getElem? hw) (by rw [hphase]; rfl)).length_le
      · simp [hphase, Phase.willPop, Nat.add_comm]
  | wait hwait => exact hs

theorem SharedStep.awake (h : SharedStep s fs s' o) (hmissed : Missed s) (hs : Awake s) :
    Awake s' := by
  cases h with
  | push f =>
      intro hpos
      have hold := hs hpos
      change (s.q ++ [f]).length ≤
        (s.pending ++ [f]).length + s.weigh fun p : Phase τ => p.willPop.toNat
      simp only [List.length_append, List.length_singleton]
      omega
  | dequeue f q _ hq ho =>
      intro hpos
      have hold := hs hpos
      rw [hq, List.length_cons] at hold
      exact (Nat.le_succ _).trans hold
  | spawn index =>
      intro hpos
      rw [weigh_spawn] at hpos ⊢
      exact (hs hpos).trans (Nat.add_le_add_left (Nat.le_add_right _ _) _)
  | raiseFlag i =>
      intro hpos
      rw [weigh_raiseFlag] at hpos ⊢
      exact hs hpos
  | notifyAll hmutex =>
      intro hpos
      exact absurd (weigh_isAsleep_eq_zero notifyAll_ne_asleep) hpos.ne'
  | notifyOne k i w hmutex hk hw hphase =>
      refine hs.set hw rfl (by nofun) (Or.inl ?_)
      simp only [hphase, move_q, move_pending, List.length_eraseIdx_of_lt hk, Phase.willPop,
        Bool.toNat_true, Bool.toNat_false]
      omega
  | notifyNobody k hmutex hnone =>
      intro hpos
      exact absurd (weigh_isAsleep_eq_zero hnone) hpos.ne'
  | spurious i w hw hphase =>
      refine hs.set hw rfl (by nofun) (Or.inl ?_)
      simp [hphase, Phase.willPop, Nat.add_comm]
  | worker i w _ _ hw hstep => exact hstep.awake hw hmissed hs
  | _ => exact hs

/-! ### Over whole runs -/

structure Synchronized (s : Shared τ) : Prop where
  exclusive : Exclusive s
  counted : Counted s
  missed : Missed s
  awake : Awake s

theorem SharedStep.synchronized (h : SharedStep s fs s' o) (hs : Synchronized s) :
    Synchronized s' where
  exclusive := h.exclusive hs.exclusive
  counted := h.counted hs.counted
  missed := h.missed hs.exclusive hs.missed
  awake := h.awake hs.missed hs.awake

theorem synchronized_init : Synchronized (init : State τ).toShared where
  exclusive := by
    intro i
    simp [init, Shared.holders]
  counted := rfl
  missed := by
    intro w hw
    cases hw
  awake := fun _ => Nat.zero_le _

theorem synchronized_run (es : List (Event τ)) : Synchronized (run step init es).toShared := by
  suffices hrun : ∀ p : State τ, Synchronized p.toShared →
      Synchronized (run step p es).toShared from hrun init synchronized_init
  induction es with
  | nil => exact fun _ hp => hp
  | cons e es ih => exact fun p hp => ih _ ((step_shared p e).synchronized hp)

/-- `n_idle` is the number of the workers inside `wait`. -/
theorem nWaiting_eq_countP (es : List (Event τ)) :
    (run step init es).nWaiting = (run step init es).workers.countP fun w => w.phase.waits := by
  rw [← sum_map_toNat]
  exact (synchronized_run es).counted

/-- No two workers evaluate the predicate at once. -/
theorem holds_unique (es : List (Event τ)) {i j : ℕ} {v w : Worker τ}
    (hi : (run step init es).workers[i]? = some v) (hv : v.phase.holds = true)
    (hj : (run step init es).workers[j]? = some w) (hw : w.phase.holds = true) : i = j := by
  have hex := (synchronized_run es).exclusive
  have hmutex : (run step init es).mutex = some i := by
    rw [hex i, holders_getElem? hi, hv]
  rw [← Option.some_inj, ← hmutex, hex j, holders_getElem? hj, hw]

/-- While a worker sleeps, there are as many workers about to look into the queue as it holds
functors whose push is over. -/
theorem length_q_le (es : List (Event τ)) {w : Worker τ}
    (hw : w ∈ (run step init es).workers) (hasleep : w.phase = .asleep) :
    (run step init es).q.length ≤ (run step init es).pending.length +
      (run step init es).workers.countP fun w => w.phase.willPop := by
  rw [← sum_map_toNat]
  apply (synchronized_run es).awake
  rw [Shared.weigh, sum_map_toNat, List.countP_pos_iff]
  exact ⟨w, hw, Phase.isAsleep_iff.mpr hasleep⟩

/-- A pool with one worker that found nothing to do. -/
def idlePool : List (Event ℕ) :=
  [.call (.resize 1), .caller, .caller] ++ List.replicate 6 (.worker 0)

/-- One functor is pushed to a pool that sleeps. -/
theorem length_q_le_idlePool :
    (run step init (idlePool ++ [.push 7])).q.length ≤
      (run step init (idlePool ++ [.push 7])).pending.length +
        (run step init (idlePool ++ [.push 7])).workers.countP fun w => w.phase.willPop :=
  length_q_le (idlePool ++ [.push 7]) (w := ⟨0, false, .asleep⟩) (by decide) rfl

end ForexSuite.ThreadPool
