import ForexSuite.CopierRouting
import ForexSuite.EventMachine

/-!
# The deal object behind a queued request

`OnDealPerform` creates a deal object, pushes a task that holds a plain pointer to
it, and releases the object at the end of the scope, in which a `unique_ptr` owns
it. The worker thread may run the task at any time after the push. What it reads
is the deal as long as no object is released while a queued task refers to it.

An address is the number of the object created there and is not used again. Calls
of `OnDealPerform` may overlap.
-/
namespace ForexSuite.DealLifetime

open TextNumbers EventMachine CopierPlugin CopierRouting

inductive Scope where
  | outside
  | created (object : ℕ)
  | pushed (object : ℕ)
deriving Repr, DecidableEq

def Scope.owned : Scope → Option ℕ
  | .outside => none
  | .created object => some object
  | .pushed object => some object

/-- A running call of `OnDealPerform`: its deal, the requests it has still to push, and its
scope. -/
structure Call where
  deal : Deal
  todo : List CopyRequest
  scope : Scope
deriving DecidableEq

/-- A queued call of `processDealRequest`. The deal that caused it is recorded beside it and
never read. -/
structure Task where
  object : ℕ
  managerLogin : UInt64
  targetlogin : UInt64
  cause : Deal
deriving DecidableEq

structure State where
  store : Finmap (fun _ : ℕ => Deal)
  fresh : ℕ
  calls : List Call
  queue : List Task

def State.start : State := ⟨∅, 0, [], []⟩

inductive Event where
  | onDealPerform (deal : Deal)
  | resume (call : ℕ)
  | worker

/-- What the worker did: the task it took, the deal object as it found it, and the request it
sent. There is no deal and no request when the object is gone. -/
structure WorkerRun where
  task : Task
  deal : Option Deal
  request : Option TradeRequest
deriving DecidableEq

/-- One step of a call: create and assign the object, push the task, release the object. -/
def resume (s : State) (i : ℕ) : State :=
  match s.calls[i]? with
  | none => s
  | some c =>
      match c.scope, c.todo with
      | .outside, r :: _ =>
          { s with
            store := s.store.insert s.fresh r.deal
            fresh := s.fresh + 1
            calls := s.calls.set i { c with scope := .created s.fresh } }
      | .created object, r :: rest =>
          { s with
            queue := s.queue ++ [⟨object, r.managerLogin, r.targetlogin, c.deal⟩]
            calls := s.calls.set i { c with todo := rest, scope := .pushed object } }
      | .pushed object, _ =>
          { s with
            store := s.store.erase object
            calls := s.calls.set i { c with scope := .outside } }
      | _, [] => s

def runTask (store : Finmap (fun _ : ℕ => Deal)) (t : Task) : WorkerRun :=
  let deal := store.lookup t.object
  ⟨t, deal, deal.map fun d => processDealRequest d t.managerLogin t.targetlogin⟩

def step (check : Text → Text → Bool) (api : ServerApi) (p : CPluginInstance) (s : State) :
    Event → State × Option WorkerRun
  | .onDealPerform deal =>
      ({ s with calls := s.calls ++ [⟨deal, onDealPerform check api p deal, .outside⟩] }, none)
  | .resume i => (resume s i, none)
  | .worker =>
      match s.queue with
      | [] => (s, none)
      | t :: queue => ({ s with queue }, some (runTask s.store t))

/-- No object is released while a queued task refers to it. -/
def ReleasesUnused (s : State) : Event → Prop
  | .resume i => ∀ c ∈ s.calls[i]?, ∀ object, c.scope = .pushed object →
      ∀ t ∈ s.queue, t.object ≠ object
  | _ => True

def ScopesApart (calls : List Call) : Prop :=
  ∀ (i j : ℕ) (c c' : Call), calls[i]? = some c → calls[j]? = some c' → ∀ object,
    c.scope.owned = some object → c'.scope.owned = some object → i = j

/-- Queued tasks and created scopes refer to objects that hold the deal of their call, and all
objects have old addresses. -/
structure Safe (s : State) : Prop where
  queued : ∀ t ∈ s.queue, s.store.lookup t.object = some t.cause
  created : ∀ c ∈ s.calls, ∀ object, c.scope = .created object →
    s.store.lookup object = some c.deal
  requests : ∀ c ∈ s.calls, ∀ r ∈ c.todo, r.deal = c.deal
  old : ∀ object ∈ s.store, object < s.fresh
  ownedOld : ∀ c ∈ s.calls, ∀ object, c.scope.owned = some object → object < s.fresh
  apart : ScopesApart s.calls

variable {check : Text → Text → Bool} {api : ServerApi} {p : CPluginInstance} {s : State}

theorem forall_mem_set {α : Type*} {P : α → Prop} {xs : List α} {i : ℕ} {a : α}
    (h : ∀ x ∈ xs, P x) (ha : P a) : ∀ x ∈ xs.set i a, P x := by
  intro x hx
  rcases List.mem_or_eq_of_mem_set hx with hx | rfl
  · exact h x hx
  · exact ha

theorem getElem?_set_eq_some {α : Type*} {xs : List α} {i j : ℕ} {a x : α}
    (h : (xs.set i a)[j]? = some x) : i = j ∧ a = x ∨ i ≠ j ∧ xs[j]? = some x := by
  rw [List.getElem?_set] at h
  split_ifs at h with hij hlt
  · exact Or.inl ⟨hij, Option.some_inj.mp h⟩
  · exact Or.inr ⟨hij, h⟩

/-- A call may change its scope to one whose object no other call owns. -/
theorem ScopesApart.set {calls : List Call} (h : ScopesApart calls) {i : ℕ} {a : Call}
    (ha : ∀ object, a.scope.owned = some object → ∀ j c, j ≠ i → calls[j]? = some c →
      c.scope.owned ≠ some object) : ScopesApart (calls.set i a) := by
  intro j k c c' hj hk object hc hc'
  rcases getElem?_set_eq_some hj with ⟨hij, rfl⟩ | ⟨hij, hj⟩
  · rcases getElem?_set_eq_some hk with ⟨hik, -⟩ | ⟨hik, hk⟩
    · rw [← hij, ← hik]
    · exact absurd hc' (ha object hc k c' (Ne.symm hik) hk)
  · rcases getElem?_set_eq_some hk with ⟨-, rfl⟩ | ⟨-, hk⟩
    · exact absurd hc (ha object hc' j c (Ne.symm hij) hj)
    · exact h j k c c' hj hk object hc hc'

theorem ScopesApart.append {calls : List Call} (h : ScopesApart calls) {a : Call}
    (ha : a.scope.owned = none) : ScopesApart (calls ++ [a]) := by
  have hleft {i : ℕ} {c : Call} {object : ℕ} (hi : (calls ++ [a])[i]? = some c)
      (hc : c.scope.owned = some object) : calls[i]? = some c := by
    rcases Nat.lt_or_ge i calls.length with hlt | hge
    · rwa [List.getElem?_append_left hlt] at hi
    · rw [List.getElem?_append_right hge] at hi
      obtain rfl := List.mem_singleton.mp (List.mem_of_getElem? hi)
      simp [ha] at hc
  intro i j c c' hi hj object hc hc'
  exact h i j c c' (hleft hi hc) (hleft hj hc') object hc hc'

theorem safe_start : Safe .start := by
  constructor <;> simp [State.start, ScopesApart, Finmap.notMem_empty]

theorem Safe.onDealPerform (h : Safe s) (hassign : ∀ d, api.assign d = true) (deal : Deal) :
    Safe { s with
      calls := s.calls ++ [⟨deal, onDealPerform check api p deal, .outside⟩] } := by
  have hcall {P : Call → Prop} (hs : ∀ c ∈ s.calls, P c)
      (hnew : P ⟨deal, CopierPlugin.onDealPerform check api p deal, .outside⟩) :
      ∀ c ∈ s.calls ++ [⟨deal, CopierPlugin.onDealPerform check api p deal, .outside⟩], P c := by
    intro c hc
    rcases List.mem_append.mp hc with hc | hc
    · exact hs c hc
    · rwa [List.mem_singleton.mp hc]
  refine ⟨h.queued, hcall h.created (by simp), hcall h.requests ?_, h.old,
    hcall h.ownedOld (by simp [Scope.owned]), h.apart.append rfl⟩
  intro r hr
  obtain ⟨-, sc, -, t, -, rfl⟩ := mem_onDealPerform.mp hr
  exact if_pos (hassign deal)

theorem Safe.worker (h : Safe s) {t : Task} {queue : List Task} (hq : s.queue = t :: queue) :
    Safe { s with queue } where
  queued t' ht' := h.queued t' (by rw [hq]; exact List.mem_cons_of_mem _ ht')
  created := h.created
  requests := h.requests
  old := h.old
  ownedOld := h.ownedOld
  apart := h.apart

/-- Creating an object takes a new address and so changes none that is in use. -/
theorem Safe.create (h : Safe s) {i : ℕ} {c : Call} (hc : s.calls[i]? = some c) {r : CopyRequest}
    (hr : r ∈ c.todo) :
    Safe { s with
      store := s.store.insert s.fresh r.deal
      fresh := s.fresh + 1
      calls := s.calls.set i { c with scope := .created s.fresh } } := by
  have hmem := List.mem_of_getElem? hc
  have hold {object : ℕ} {d : Deal} (ho : s.store.lookup object = some d) :
      (s.store.insert s.fresh r.deal).lookup object = some d := by
    have hlt := h.old object (Finmap.mem_of_lookup_eq_some ho)
    rw [Finmap.lookup_insert_of_ne _ hlt.ne, ho]
  refine ⟨fun t ht => hold (h.queued t ht), ?_, ?_, ?_, ?_, ?_⟩
  · refine forall_mem_set (fun c hc object ho => hold (h.created c hc object ho)) ?_
    intro object ho
    cases ho
    rw [Finmap.lookup_insert, h.requests c hmem r hr]
  · exact forall_mem_set h.requests (h.requests c hmem)
  · intro object ho
    rcases Finmap.mem_insert.mp ho with rfl | ho
    · exact Nat.lt_succ_self _
    · exact (h.old object ho).trans (Nat.lt_succ_self _)
  · refine forall_mem_set
      (fun c hc object ho => (h.ownedOld c hc object ho).trans (Nat.lt_succ_self _)) ?_
    intro object ho
    cases ho
    exact Nat.lt_succ_self _
  · refine h.apart.set ?_
    intro object hnew j c' _ hj ho
    cases hnew
    exact (h.ownedOld c' (List.mem_of_getElem? hj) _ ho).ne rfl

theorem Safe.push (h : Safe s) {i : ℕ} {c : Call} (hc : s.calls[i]? = some c) {object : ℕ}
    (hscope : c.scope = .created object) (managerLogin targetlogin : UInt64)
    {rest : List CopyRequest} (hrest : ∀ r ∈ rest, r.deal = c.deal) :
    Safe { s with
      queue := s.queue ++ [⟨object, managerLogin, targetlogin, c.deal⟩]
      calls := s.calls.set i { c with todo := rest, scope := .pushed object } } := by
  have hmem := List.mem_of_getElem? hc
  have howned : c.scope.owned = some object := by rw [hscope]; rfl
  refine ⟨?_, ?_, ?_, h.old, ?_, ?_⟩
  · intro t ht
    rcases List.mem_append.mp ht with ht | ht
    · exact h.queued t ht
    · rw [List.mem_singleton.mp ht]
      exact h.created c hmem object hscope
  · exact forall_mem_set h.created (by simp)
  · exact forall_mem_set h.requests hrest
  · refine forall_mem_set h.ownedOld ?_
    intro object' ho
    cases ho
    exact h.ownedOld c hmem object howned
  · refine h.apart.set ?_
    intro object' hsame j c' hj hc' ho
    cases hsame
    exact hj (h.apart j i c' c hc' hc object ho howned)

theorem Safe.release (h : Safe s) {i : ℕ} {c : Call} (hc : s.calls[i]? = some c) {object : ℕ}
    (hscope : c.scope = .pushed object) (hunused : ∀ t ∈ s.queue, t.object ≠ object) :
    Safe { s with
      store := s.store.erase object
      calls := s.calls.set i { c with scope := .outside } } := by
  have hmem := List.mem_of_getElem? hc
  have howned : c.scope.owned = some object := by rw [hscope]; rfl
  refine ⟨?_, ?_, ?_, ?_, ?_, ?_⟩
  · intro t ht
    rw [Finmap.lookup_erase_ne (hunused t ht), h.queued t ht]
  · intro c' hc' object' ho
    obtain ⟨j, hj⟩ := List.mem_iff_getElem?.mp hc'
    rcases getElem?_set_eq_some hj with ⟨-, rfl⟩ | ⟨hij, hj⟩
    · simp at ho
    · have ho' : c'.scope.owned = some object' := by rw [ho]; rfl
      -- the other scope owns another object, which is not the one released
      have hne : object' ≠ object := by
        intro heq
        rw [heq] at ho'
        exact hij (h.apart i j c c' hc hj object howned ho')
      rw [Finmap.lookup_erase_ne hne, h.created c' (List.mem_of_getElem? hj) object' ho]
  · exact forall_mem_set h.requests (h.requests c hmem)
  · exact fun object' ho => h.old object' (Finmap.mem_erase.mp ho).2
  · exact forall_mem_set h.ownedOld (by simp [Scope.owned])
  · exact h.apart.set (by simp [Scope.owned])

theorem Safe.resume (h : Safe s) {i : ℕ} (hunused : ReleasesUnused s (.resume i)) :
    Safe (resume s i) := by
  unfold DealLifetime.resume
  rcases hc : s.calls[i]? with _ | c
  · exact h
  rcases hscope : c.scope with _ | object | object
  · rcases htodo : c.todo with _ | ⟨r, rest⟩
    · simpa [hscope, htodo] using h
    · simp only [hscope, htodo]
      have hsafe := h.create (r := r) hc (by simp [htodo])
      rwa [htodo] at hsafe
  · rcases htodo : c.todo with _ | ⟨r, rest⟩
    · simpa [hscope, htodo] using h
    · simp only [hscope, htodo]
      refine h.push hc hscope r.managerLogin r.targetlogin fun r' hr' => ?_
      exact h.requests c (List.mem_of_getElem? hc) r' (by simp [htodo, hr'])
  · simp only [hscope]
    exact h.release hc hscope (hunused c hc object hscope)

theorem step_safe (hassign : ∀ d, api.assign d = true) (s : State) (e : Event) (h : Safe s)
    (hunused : ReleasesUnused s e) : Safe (step check api p s e).1 := by
  cases e with
  | onDealPerform deal => exact h.onDealPerform hassign deal
  | resume i => exact h.resume hunused
  | worker =>
      rcases hq : s.queue with _ | ⟨t, queue⟩
      · simpa [step, hq] using h
      · simpa [step, hq] using h.worker hq

def ReadsCause (o : Option WorkerRun) : Prop :=
  ∀ w ∈ o, w.deal = some w.task.cause ∧ w.request =
    some (processDealRequest w.task.cause w.task.managerLogin w.task.targetlogin)

theorem step_readsCause (s : State) (e : Event) (h : Safe s) :
    ReadsCause (step check api p s e).2 := by
  cases e with
  | onDealPerform deal => simp [step, ReadsCause]
  | resume i => simp [step, ReadsCause]
  | worker =>
      rcases hq : s.queue with _ | ⟨t, queue⟩
      · simp [step, hq, ReadsCause]
      · have ht := h.queued t (by simp [hq])
        simp [step, hq, ReadsCause, runTask, ht]

/-- In every run in which no object is released while a queued task refers to it, whatever the
order of the steps of calls and worker, each task finds its object, with the action, volume,
symbol and price of the deal that caused it, and sends the request made of these. -/
theorem worker_reads_cause (check : Text → Text → Bool) (api : ServerApi) (p : CPluginInstance)
    (hassign : ∀ d, api.assign d = true) (events : List Event)
    (h : Along (step check api p) ReleasesUnused .start events) :
    ∀ o ∈ trace (step check api p) .start events, ReadsCause o :=
  h.outputs Safe (step_safe hassign) (fun s e hs _ => step_readsCause s e hs) safe_start

theorem releasesUnused_of_queue (h : s.queue = []) (e : Event) : ReleasesUnused s e := by
  cases e with
  | onDealPerform deal => trivial
  | resume i => simp [ReleasesUnused, h]
  | worker => trivial

def oneRule : CPluginInstance :=
  ⟨1, [⟨"*".toList, [⟨"*".toList, [⟨"100".toList, 200⟩]⟩], Finmap.singleton "*".toList 0⟩],
    Finmap.singleton "*".toList 0⟩

theorem worker_reads_cause_run :
    let deal := Deal.client 100 "EURUSD".toList
    ∀ o ∈ trace (step GroupMask.checkGroupMask everyoneInDemo oneRule) .start
      [.onDealPerform deal, .resume 0, .resume 0, .worker, .resume 0], ReadsCause o := by
  intro deal
  exact worker_reads_cause GroupMask.checkGroupMask everyoneInDemo oneRule (fun _ => rfl) _
    ⟨trivial, releasesUnused_of_queue (by decide) _, releasesUnused_of_queue (by decide) _, trivial,
      releasesUnused_of_queue (by decide) _, trivial⟩

/-- When the scope ends before the worker runs the task, the object is gone. -/
theorem worker_misses_object :
    let deal := Deal.client 100 "EURUSD".toList
    trace (step GroupMask.checkGroupMask everyoneInDemo oneRule) .start
        [.onDealPerform deal, .resume 0, .resume 0, .resume 0, .worker] =
      [none, none, none, none, some ⟨⟨0, 1, 200, deal⟩, none, none⟩] := by
  decide

end ForexSuite.DealLifetime
