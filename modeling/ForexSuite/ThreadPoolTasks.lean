import ForexSuite.IndexedList
import ForexSuite.ListUpdates
import ForexSuite.ThreadPool
import Mathlib.Algebra.Order.Group.Multiset

/-!
# What becomes of a queued functor

Every functor that was pushed is at any time in one of four places: in the queue, at
a worker that runs it, run to its end, or removed from the queue unrun. Functors
leave the queue in the order in which they came, and a pool that has started a
single thread also finishes them in that order.
-/
namespace ForexSuite.ThreadPool

open EventMachine IndexedList ListUpdates

variable {τ : Type*}

def Phase.functors : Phase τ → List τ
  | .running f => [f]
  | _ => []

/-- The functors that leave the queue. -/
def Output.taken : Output τ → List τ
  | .started _ _ f | .deleted f | .popped f => [f]
  | _ => []

def Output.begun : Output τ → List τ
  | .started _ _ f => [f]
  | _ => []

def Output.ended : Output τ → List τ
  | .finished _ _ f => [f]
  | _ => []

/-- The functors that leave the queue unrun. -/
def Output.removed : Output τ → List τ
  | .deleted f | .popped f => [f]
  | _ => []

/-- The sum of a weight of the phases. -/
def Shared.weigh {M : Type*} [AddCommMonoid M] (s : Shared τ) (weight : Phase τ → M) : M :=
  (s.workers.map fun w => weight w.phase).sum

/-- The functors that are being run. -/
def Shared.running (s : Shared τ) : Multiset τ := s.weigh fun p => (p.functors : Multiset τ)

variable {s s' : Shared τ} {fs : List τ} {o : Output τ}

theorem map_phase_raiseFlag {β : Type*} {f : Phase τ → β} (i : ℕ) :
    (s.raiseFlag i).workers.map (fun w => f w.phase) = s.workers.map fun w => f w.phase :=
  map_modify_of_key (f := fun w : Worker τ => { w with flag := true }) (fun _ => rfl) i

theorem map_phase_notifyAll {β : Type*} {f : Phase τ → β} (h : f .notified = f .asleep) :
    s.notifyAll.workers.map (fun w => f w.phase) = s.workers.map fun w => f w.phase := by
  have hwake (w : Worker τ) : f w.wake.phase = f w.phase := by
    rw [Worker.wake]
    split_ifs with hphase
    · rw [h, Phase.isAsleep_iff.mp hphase]
    · rfl
  simp only [Shared.notifyAll, List.map_map, Function.comp_def, hwake]

section Weights

variable {M : Type*} [AddCommMonoid M]

theorem weigh_set (weight : Phase τ → M) {i : ℕ} {w : Worker τ}
    (hw : s.workers[i]? = some w) {p : Phase τ}
    (hs : s'.workers = s.workers.set i { w with phase := p }) :
    s'.weigh weight + weight w.phase = s.weigh weight + weight p := by
  rw [Shared.weigh, hs]
  exact sum_map_set (fun w : Worker τ => weight w.phase) hw { w with phase := p }

variable {weight : Phase τ → M}

theorem weigh_raiseFlag (i : ℕ) : (s.raiseFlag i).weigh weight = s.weigh weight :=
  congrArg List.sum (map_phase_raiseFlag i)

theorem weigh_spawn (index : ℕ) :
    (s.spawn index).weigh weight = s.weigh weight + weight .popping := by
  simp [Shared.weigh, Shared.spawn]

theorem weigh_notifyAll (h : weight .notified = weight .asleep) :
    s.notifyAll.weigh weight = s.weigh weight :=
  congrArg List.sum (map_phase_notifyAll h)

end Weights

theorem running_set {i : ℕ} {w : Worker τ} {p : Phase τ} (hw : s.workers[i]? = some w)
    (hs : s'.workers = s.workers.set i { w with phase := p }) :
    s'.running + w.phase.functors = s.running + p.functors :=
  weigh_set _ hw hs

theorem running_move {i : ℕ} {w : Worker τ} (hw : s.workers[i]? = some w) (p : Phase τ) :
    (s.move i w p).running + w.phase.functors = s.running + p.functors :=
  running_set hw rfl

/-- A worker takes up the functor that it starts and puts down the one that it finishes. -/
theorem WorkerStep.functors {i : ℕ} {w : Worker τ} (h : WorkerStep s i w s' o)
    (hw : s.workers[i]? = some w) :
    ∃ p : Phase τ, s'.workers = s.workers.set i { w with phase := p } ∧
      w.phase.functors ++ o.begun = o.ended ++ p.functors := by
  cases h with
  | take f q hphase hq | takeLocked f q hphase hq => exact ⟨.running f, rfl, by rw [hphase]; rfl⟩
  | miss hphase hq => exact ⟨.idle, rfl, by rw [hphase]; rfl⟩
  | finish f hphase =>
      refine ⟨if w.flag then .returned else .popping, rfl, ?_⟩
      rw [hphase]
      split_ifs <;> rfl
  | lock hphase hmutex | relock hphase hmutex => exact ⟨.testing, rfl, by rw [hphase]; rfl⟩
  | missLocked hphase hq => exact ⟨.readsDone, rfl, by rw [hphase]; rfl⟩
  | done hphase hdone => exact ⟨.returned, rfl, by rw [hphase]; rfl⟩
  | notDone hphase hdone => exact ⟨.readsFlag, rfl, by rw [hphase]; rfl⟩
  | flagged hphase hflag => exact ⟨.returned, rfl, by rw [hphase]; rfl⟩
  | sleep hphase hflag => exact ⟨.asleep, rfl, by rw [hphase]; rfl⟩
  | wait hwait => exact ⟨w.phase, (set_eq_self hw).symm, List.append_nil _⟩

/-- What a step finishes and what is run after it were being run or are started by it. -/
theorem SharedStep.running (h : SharedStep s fs s' o) :
    s'.running + o.ended = s.running + o.begun := by
  cases h with
  | none | setDone => rfl
  | push f => rfl
  | dequeue f q _ hq ho =>
      rcases ho with rfl | rfl <;> rfl
  | spawn index => simp [Shared.running, weigh_spawn, Phase.functors, Output.ended, Output.begun]
  | raiseFlag i => exact congrArg (· + (0 : Multiset τ)) (weigh_raiseFlag i)
  | notifyAll hmutex => exact congrArg (· + (0 : Multiset τ)) (weigh_notifyAll rfl)
  | notifyOne k i w hmutex hk hw hphase =>
      have hmove := running_move (s := { s with pending := s.pending.eraseIdx k }) hw .notified
      rw [hphase] at hmove
      exact hmove
  | spurious i w hw hphase =>
      have hmove := running_move hw .notified
      rw [hphase] at hmove
      exact hmove
  | notifyNobody k hmutex hnone => rfl
  | worker i w _ _ hw hstep =>
      obtain ⟨p, hset, hfunctors⟩ := hstep.functors hw
      have hmove := running_set hw hset
      have hcoe : (w.phase.functors : Multiset τ) + o.begun = o.ended + p.functors := by
        rw [Multiset.coe_add, hfunctors, Multiset.coe_add]
      apply add_right_cancel (b := (w.phase.functors : Multiset τ))
      calc s'.running + o.ended + w.phase.functors
          = s'.running + w.phase.functors + o.ended := add_right_comm _ _ _
        _ = s.running + (o.ended + p.functors) := by
            rw [hmove, add_assoc, add_comm (o.ended : Multiset τ)]
        _ = s.running + o.begun + w.phase.functors := by
            rw [← hcoe, add_assoc, add_comm (o.begun : Multiset τ)]

theorem WorkerStep.queue {i : ℕ} {w : Worker τ} (h : WorkerStep s i w s' o) :
    o.taken ++ s'.q = s.q ∧ o.removed = [] := by
  cases h with
  | take f q hphase hq | takeLocked f q hphase hq => exact ⟨hq.symm, rfl⟩
  | _ => exact ⟨rfl, rfl⟩

/-- Functors are queued behind the others and taken from the front. -/
theorem SharedStep.queue (h : SharedStep s fs s' o) : o.taken ++ s'.q = s.q ++ fs := by
  cases h with
  | push f => rfl
  | dequeue f q _ hq ho => rcases ho with rfl | rfl <;> simpa [Output.taken] using hq.symm
  | worker i w _ _ hw hstep => simpa using hstep.queue.1
  | _ => exact (List.append_nil _).symm

theorem Output.taken_eq (o : Output τ) :
    (o.taken : Multiset τ) = o.begun + (o.removed : Multiset τ) := by
  cases o <;> rfl

theorem taken_flatMap (os : List (Output τ)) :
    (os.flatMap Output.taken : Multiset τ) =
      os.flatMap Output.begun + (os.flatMap Output.removed : Multiset τ) := by
  induction os with
  | nil => rfl
  | cons o os ih =>
      simp only [List.flatMap_cons, ← Multiset.coe_add, ih, o.taken_eq]
      exact add_add_add_comm _ _ _ _

/-- Functors leave the queue in the order in which they came. -/
theorem queue_run (p : State τ) (es : List (Event τ)) :
    (trace step p es).flatMap Output.taken ++ (run step p es).q =
      p.q ++ es.flatMap Event.pushed := by
  induction es generalizing p with
  | nil => simp [run]
  | cons e es ih =>
      rw [trace_cons, List.flatMap_cons, List.append_assoc, run_cons, ih, ← List.append_assoc,
        (step_shared p e).queue, List.append_assoc, List.flatMap_cons]

theorem running_run (p : State τ) (es : List (Event τ)) :
    (run step p es).running + (trace step p es).flatMap Output.ended =
      p.running + ((trace step p es).flatMap Output.begun : Multiset τ) := by
  induction es generalizing p with
  | nil => rfl
  | cons e es ih =>
      have hstep := (step_shared p e).running
      simp only [trace_cons, List.flatMap_cons, run_cons, ← Multiset.coe_add]
      calc (run step (step p e).1 es).running +
            ((step p e).2.ended + (trace step (step p e).1 es).flatMap Output.ended)
          = (run step (step p e).1 es).running +
              (trace step (step p e).1 es).flatMap Output.ended + (step p e).2.ended := by
            rw [add_comm ((step p e).2.ended : Multiset τ), add_assoc]
        _ = (step p e).1.running + (step p e).2.ended +
              (trace step (step p e).1 es).flatMap Output.begun := by
            rw [ih, add_right_comm]
        _ = p.running + ((step p e).2.begun +
              (trace step (step p e).1 es).flatMap Output.begun) := by
            rw [hstep, add_assoc]

/-- Every functor that was pushed has been run, is being run, waits in the queue or was removed
from it, and it is in no two of these places and in none of them twice. -/
theorem pushed_eq_ended_add (es : List (Event τ)) :
    (es.flatMap Event.pushed : Multiset τ) =
      (trace step init es).flatMap Output.ended + (run step init es).running +
        (run step init es).q + ((trace step init es).flatMap Output.removed : Multiset τ) := by
  have hqueue := queue_run init es
  have hrunning := running_run init es
  have htaken := taken_flatMap (trace step init es)
  rw [show (init : State τ).q = [] from rfl, List.nil_append] at hqueue
  rw [show (init : State τ).running = 0 from rfl, zero_add] at hrunning
  rw [← hqueue, ← Multiset.coe_add, htaken, ← hrunning,
    add_comm ((trace step init es).flatMap Output.ended : Multiset τ)]
  exact add_right_comm _ _ _

def Shared.underWay (s : Shared τ) : List τ := s.workers.flatMap fun w => w.phase.functors

theorem SharedStep.length_le (h : SharedStep s fs s' o) :
    s.workers.length ≤ s'.workers.length := by
  cases h with
  | spawn index => simp [Shared.spawn]
  | raiseFlag i => simp [Shared.raiseFlag]
  | notifyAll hmutex => simp [Shared.notifyAll]
  | notifyOne k i w hmutex hk hw hphase => simp [Shared.move]
  | spurious i w hw hphase => simp [Shared.move]
  | worker i w _ _ hw hstep =>
      obtain ⟨p, hset, -⟩ := hstep.functors hw
      rw [hset, List.length_set]
  | _ => exact le_rfl

theorem length_le_run (p : State τ) (es : List (Event τ)) :
    p.workers.length ≤ (run step p es).workers.length := by
  induction es generalizing p with
  | nil => exact le_rfl
  | cons e es ih => exact (step_shared p e).length_le.trans (ih _)

theorem underWay_congr (h : s'.workers.map (fun w => w.phase.functors) =
    s.workers.map fun w => w.phase.functors) : s'.underWay = s.underWay := by
  rw [Shared.underWay, List.flatMap_def, h, ← List.flatMap_def, Shared.underWay]

/-- A step of the only worker. -/
theorem SharedStep.underWay (h : SharedStep s fs s' o) (hlen : s'.workers.length ≤ 1) :
    s.underWay ++ o.begun = o.ended ++ s'.underWay := by
  have hset {i : ℕ} {w : Worker τ} {p : Phase τ} (hw : s.workers[i]? = some w)
      (hs : s'.workers = s.workers.set i { w with phase := p })
      (hp : w.phase.functors ++ o.begun = o.ended ++ p.functors) :
      s.underWay ++ o.begun = o.ended ++ s'.underWay := by
    obtain ⟨v, hv⟩ : ∃ v, s.workers = [v] := by
      rw [← List.length_eq_one_iff]
      have hi := (List.getElem?_eq_some_iff.mp hw).1
      rw [hs, List.length_set] at hlen
      omega
    rw [hv] at hw hs
    obtain rfl : i = 0 := by
      have hi := (List.getElem?_eq_some_iff.mp hw).1
      simpa using hi
    obtain rfl : v = w := by simpa using hw
    rw [Shared.underWay, Shared.underWay, hs, hv]
    simpa using hp
  have hsame (hs : s'.workers.map (fun w => w.phase.functors) =
      s.workers.map fun w => w.phase.functors) : s.underWay ++ [] = s'.underWay := by
    rw [List.append_nil, underWay_congr hs]
  cases h with
  | dequeue f q _ hq ho => rcases ho with rfl | rfl <;> exact hsame rfl
  | spawn index => simp [Shared.underWay, Shared.spawn, Phase.functors, Output.begun, Output.ended]
  | raiseFlag i =>
      apply hsame
      exact map_phase_raiseFlag i
  | notifyAll hmutex =>
      apply hsame
      exact map_phase_notifyAll rfl
  | notifyOne k i w hmutex hk hw hphase | spurious i w hw hphase =>
      apply hset hw rfl
      rw [hphase]
      rfl
  | worker i w _ _ hw hstep =>
      obtain ⟨p, hworkers, hfunctors⟩ := hstep.functors hw
      exact hset hw hworkers hfunctors
  | _ => exact hsame rfl

/-- A pool that never had two threads finishes the functors in the order in which it started
them. -/
theorem begun_eq_ended_append (es : List (Event τ))
    (h : (run step init es).workers.length ≤ 1) :
    (trace step init es).flatMap Output.begun =
      (trace step init es).flatMap Output.ended ++ (run step init es).underWay := by
  suffices hrun : ∀ p : State τ, (run step p es).workers.length ≤ 1 →
      p.underWay ++ (trace step p es).flatMap Output.begun =
        (trace step p es).flatMap Output.ended ++ (run step p es).underWay from hrun init h
  clear h
  induction es with
  | nil => simp [run]
  | cons e es ih =>
      intro p hlen
      have hfirst := (step_shared p e).underWay ((length_le_run _ es).trans hlen)
      rw [trace_cons, List.flatMap_cons, List.flatMap_cons, ← List.append_assoc, hfirst,
        List.append_assoc, ih _ hlen, List.append_assoc, run_cons]

theorem begun_sublist_taken (os : List (Output τ)) :
    (os.flatMap Output.begun).Sublist (os.flatMap Output.taken) := by
  induction os with
  | nil => exact List.Sublist.slnil
  | cons o os ih =>
      have hone : o.begun.Sublist o.taken := by
        cases o <;> simp [Output.begun, Output.taken]
      simpa only [List.flatMap_cons] using hone.append ih

/-- With a single thread, what was finished, what is under way and what is queued are in the
order in which they were pushed. -/
theorem ended_append_sublist_pushed (es : List (Event τ))
    (h : (run step init es).workers.length ≤ 1) :
    ((trace step init es).flatMap Output.ended ++ (run step init es).underWay ++
      (run step init es).q).Sublist (es.flatMap Event.pushed) := by
  have hqueue := queue_run init es
  rw [show (init : State τ).q = [] from rfl, List.nil_append] at hqueue
  rw [← hqueue, ← begun_eq_ended_append es h]
  exact (begun_sublist_taken _).append_right _

end ForexSuite.ThreadPool
