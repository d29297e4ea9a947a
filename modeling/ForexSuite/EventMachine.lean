import Mathlib.Data.List.Basic

/-!
# Event-driven machines and their runs

A machine answers each event with a new state and one output. Nothing below
depends on what the states, events and outputs are: a run is the fold of the
step function, a trace lists the outputs, and `Along` asks a property of every
step of a run at the state in which that step is taken. The induction rules for
invariants, guarded invariants and simulations are stated once here.
-/
namespace ForexSuite.EventMachine

variable {σ τ ε ω ω' : Type*}

def run (step : σ → ε → σ × ω) : σ → List ε → σ
  | s, [] => s
  | s, e :: es => run step (step s e).1 es

def trace (step : σ → ε → σ × ω) : σ → List ε → List ω
  | _, [] => []
  | s, e :: es => (step s e).2 :: trace step (step s e).1 es

/-- `P` holds of every step of the run, at the state before that step. -/
def Along (step : σ → ε → σ × ω) (P : σ → ε → Prop) : σ → List ε → Prop
  | _, [] => True
  | s, e :: es => P s e ∧ Along step P (step s e).1 es

variable {step : σ → ε → σ × ω}

@[simp] theorem run_cons (s : σ) (e : ε) (es : List ε) :
    run step s (e :: es) = run step (step s e).1 es := rfl

@[simp] theorem trace_nil (s : σ) : trace step s [] = [] := rfl

@[simp] theorem trace_cons (s : σ) (e : ε) (es : List ε) :
    trace step s (e :: es) = (step s e).2 :: trace step (step s e).1 es := rfl

theorem run_append (s : σ) (es fs : List ε) :
    run step s (es ++ fs) = run step (run step s es) fs := by
  induction es generalizing s with
  | nil => rfl
  | cons e es ih => exact ih (step s e).1

theorem trace_append (s : σ) (es fs : List ε) :
    trace step s (es ++ fs) = trace step s es ++ trace step (run step s es) fs := by
  induction es generalizing s with
  | nil => rfl
  | cons e es ih =>
      rw [List.cons_append, trace_cons, ih, trace_cons, List.cons_append, run_cons]

theorem Along.append {P : σ → ε → Prop} {s : σ} {es fs : List ε}
    (h : Along step P s (es ++ fs)) :
    Along step P s es ∧ Along step P (run step s es) fs := by
  induction es generalizing s with
  | nil => exact ⟨trivial, h⟩
  | cons e es ih =>
      have hrest := ih h.2
      exact ⟨⟨h.1, hrest.1⟩, hrest.2⟩

theorem Along.concat {P : σ → ε → Prop} {s : σ} {es fs : List ε} (h : Along step P s es)
    (h' : Along step P (run step s es) fs) : Along step P s (es ++ fs) := by
  induction es generalizing s with
  | nil => exact h'
  | cons e es ih => exact ⟨h.1, ih h.2 h'⟩

theorem Along.take {P : σ → ε → Prop} {s : σ} {es : List ε} (k : ℕ) (h : Along step P s es) :
    Along step P s (es.take k) := by
  rw [← List.take_append_drop k es] at h
  exact h.append.1

theorem run_invariant (Inv : σ → Prop) (hstep : ∀ s e, Inv s → Inv (step s e).1) {s : σ}
    (hs : Inv s) (es : List ε) : Inv (run step s es) := by
  induction es generalizing s with
  | nil => exact hs
  | cons e es ih => exact ih (hstep s e hs)

/-- An invariant that speaks of the events read so far as well. -/
theorem run_reading (R : List ε → σ → Prop)
    (hstep : ∀ read s e, R read s → R (read ++ [e]) (step s e).1)
    {s : σ} (hs : R [] s) (es : List ε) : R es (run step s es) := by
  have hrun (read : List ε) (s : σ) (h : R read s) : R (read ++ es) (run step s es) := by
    induction es generalizing read s with
    | nil => rwa [List.append_nil]
    | cons e es ih =>
        rw [List.append_cons]
        exact ih (read ++ [e]) (step s e).1 (hstep read s e h)
  exact hrun [] s hs

/-- A guarded invariant: it may be re-established using what `P` says of the step. -/
theorem Along.invariant {P : σ → ε → Prop} (Inv : σ → Prop)
    (hstep : ∀ s e, Inv s → P s e → Inv (step s e).1)
    {s : σ} {es : List ε} (hs : Inv s) (h : Along step P s es) : Inv (run step s es) := by
  induction es generalizing s with
  | nil => exact hs
  | cons e es ih => exact ih (hstep s e hs h.1) h.2

/-- Every output of a guarded run satisfies what the guard and the invariant give. -/
theorem Along.outputs {P : σ → ε → Prop} (Inv : σ → Prop) {Q : ω → Prop}
    (hstep : ∀ s e, Inv s → P s e → Inv (step s e).1)
    (hout : ∀ s e, Inv s → P s e → Q (step s e).2)
    {s : σ} {es : List ε} (hs : Inv s) (h : Along step P s es) :
    ∀ o ∈ trace step s es, Q o := by
  induction es generalizing s with
  | nil => simp
  | cons e es ih =>
      intro o ho
      rcases List.mem_cons.mp ho with rfl | ho
      · exact hout s e hs h.1
      · exact ih (hstep s e hs h.1) h.2 o ho

/-- Deleting events that are inert for an observer when they arrive does not change what it
sees: they leave the state alone and produce nothing for it. -/
theorem Along.flatMap_trace_filter {α : Type*} {keep : ε → Bool} {obs : ω → List α}
    {s : σ} {es : List ε}
    (h : Along step (fun s e => keep e = false → (step s e).1 = s ∧ obs (step s e).2 = []) s es) :
    (trace step s es).flatMap obs = (trace step s (es.filter keep)).flatMap obs := by
  induction es generalizing s with
  | nil => rfl
  | cons e es ih =>
      rw [trace_cons, List.flatMap_cons, ih h.2]
      cases hkeep : keep e with
      | true => rw [List.filter_cons_of_pos hkeep, trace_cons, List.flatMap_cons]
      | false =>
          obtain ⟨hstate, hobs⟩ := h.1 hkeep
          rw [List.filter_cons_of_neg (by simp [hkeep]), hstate, hobs, List.nil_append]

/-- A machine whose steps are permitted by a second one over the same events stays related
to it. -/
theorem Along.related {step' : τ → ε → τ × ω'} {P : τ → ε → Prop} (R : σ → τ → Prop)
    (hstep : ∀ s t e, R s t → P t e → R (step s e).1 (step' t e).1)
    {s : σ} {t : τ} {es : List ε} (hst : R s t) (h : Along step' P t es) :
    R (run step s es) (run step' t es) := by
  induction es generalizing s t with
  | nil => exact hst
  | cons e es ih => exact ih (hstep s t e hst h.1) h.2

theorem Along.related_outputs {step' : τ → ε → τ × ω'} {P : τ → ε → Prop} (R : σ → τ → Prop)
    {Q : ω → Prop} (hstep : ∀ s t e, R s t → P t e → R (step s e).1 (step' t e).1)
    (hout : ∀ s t e, R s t → P t e → Q (step s e).2)
    {s : σ} {t : τ} {es : List ε} (hst : R s t) (h : Along step' P t es) :
    ∀ o ∈ trace step s es, Q o := by
  induction es generalizing s t with
  | nil => simp
  | cons e es ih =>
      intro o ho
      rw [trace_cons, List.mem_cons] at ho
      cases ho with
      | inl heq =>
          rw [heq]
          exact hout s t e hst h.1
      | inr hrest => exact ih (hstep s t e hst h.1) h.2 o hrest

/-- When every guarded step of a machine is matched by a guarded run of a second one with the same
observations, then so is every guarded run. -/
theorem Along.simulated {α ε' : Type*} {step' : τ → ε' → τ × ω'} {P : σ → ε → Prop}
    {P' : τ → ε' → Prop} (R : σ → τ → Prop) (obs : ω → List α) (obs' : ω' → List α)
    (hstep : ∀ s t e, R s t → P s e → ∃ fs, R (step s e).1 (run step' t fs) ∧
      Along step' P' t fs ∧ (trace step' t fs).flatMap obs' = obs (step s e).2)
    {s : σ} {t : τ} {es : List ε} (hst : R s t) (h : Along step P s es) :
    ∃ fs, R (run step s es) (run step' t fs) ∧ Along step' P' t fs ∧
      (trace step' t fs).flatMap obs' = (trace step s es).flatMap obs := by
  induction es generalizing s t with
  | nil => exact ⟨[], hst, trivial, rfl⟩
  | cons e es ih =>
      obtain ⟨fs, hR, hfs, hobs⟩ := hstep s t e hst h.1
      obtain ⟨gs, hR', hgs, hobs'⟩ := ih hR h.2
      refine ⟨fs ++ gs, ?_, hfs.concat hgs, ?_⟩
      · rwa [run_append]
      · rw [trace_append, List.flatMap_append, hobs, hobs', trace_cons, List.flatMap_cons]

theorem Along.mono {P Q : σ → ε → Prop} {s : σ} {es : List ε} (hPQ : ∀ s e, P s e → Q s e)
    (h : Along step P s es) : Along step Q s es := by
  induction es generalizing s with
  | nil => trivial
  | cons e es ih => exact ⟨hPQ s e h.1, ih h.2⟩

theorem along_and {P Q : σ → ε → Prop} {s : σ} {es : List ε} :
    Along step (fun s e => P s e ∧ Q s e) s es ↔ Along step P s es ∧ Along step Q s es := by
  induction es generalizing s with
  | nil => simp [Along]
  | cons e es ih => simp only [Along, ih, and_and_and_comm]

/-- What is asked of every step may be replaced by what it is equivalent to under an invariant. -/
theorem along_congr {P Q : σ → ε → Prop} (Inv : σ → Prop)
    (hstep : ∀ s e, Inv s → Inv (step s e).1) (hPQ : ∀ s e, Inv s → (P s e ↔ Q s e))
    {s : σ} {es : List ε} (hs : Inv s) : Along step P s es ↔ Along step Q s es := by
  induction es generalizing s with
  | nil => exact Iff.rfl
  | cons e es ih => exact and_congr (hPQ s e hs) (ih (hstep s e hs))

/-- The rule for what holds after every prefix of a run. `A` says what is known before the events,
the state `a` being tracked beside the machine. A property `Q` of the events read so far that holds
of none, holds of one exactly when `P` does, and may then be taken on from the next state, holds of
every prefix exactly when `P` holds along the run. -/
theorem forall_take_iff_along_of {α : Type*} {P : σ → ε → Prop} (A Q : α → σ → List ε → Prop)
    (next : α → σ → ε → α) (hnil : ∀ a s es, A a s es → Q a s [])
    (hone : ∀ a s e es, A a s (e :: es) → (Q a s [e] ↔ P s e))
    (hcons : ∀ a s e es, A a s (e :: es) → P s e → A (next a s e) (step s e).1 es ∧
      ∀ read, Q a s (e :: read) ↔ Q (next a s e) (step s e).1 read)
    {a : α} {s : σ} {es : List ε} (h : A a s es) :
    (∀ k, Q a s (es.take k)) ↔ Along step P s es := by
  induction es generalizing a s with
  | nil =>
      simp only [List.take_nil, Along, iff_true]
      exact fun _ => hnil a s [] h
  | cons e es ih =>
      have hfirst := hone a s e es h
      constructor
      · intro hall
        have hP : P s e := hfirst.mp (hall 1)
        obtain ⟨hnext, hread⟩ := hcons a s e es h hP
        exact ⟨hP, (ih hnext).mp fun k => (hread _).mp (hall (k + 1))⟩
      · intro halong k
        obtain ⟨hnext, hread⟩ := hcons a s e es h halong.1
        cases k with
        | zero => exact hnil a s _ h
        | succ k => exact (hread _).mpr ((ih hnext).mpr halong.2 k)

/-- An invariant that each step keeps exactly when `P` holds of it, in states that satisfy `Aux`,
holds after every prefix of a run exactly when `P` holds along the run. -/
theorem forall_take_iff_along {P : σ → ε → Prop} (Aux Inv : σ → Prop)
    (haux : ∀ s e, Aux s → Aux (step s e).1)
    (hstep : ∀ s e, Aux s → Inv s → (Inv (step s e).1 ↔ P s e))
    {s : σ} {es : List ε} (ha : Aux s) (hs : Inv s) :
    (∀ k, Inv (run step s (es.take k))) ↔ Along step P s es := by
  refine forall_take_iff_along_of (fun (_ : Unit) s _ => Aux s ∧ Inv s)
    (fun _ s read => Inv (run step s read)) (fun _ _ _ => ()) ?_ ?_ ?_ (a := ()) ⟨ha, hs⟩
  · intro _ s _ h
    exact h.2
  · intro _ s e _ h
    exact hstep s e h.1 h.2
  · intro _ s e _ h hP
    exact ⟨⟨haux s e h.1, (hstep s e h.1 h.2).mpr hP⟩, fun _ => Iff.rfl⟩

/-- What is asked of the events alone. -/
theorem along_const {p : ε → Prop} {s : σ} {es : List ε} :
    Along step (fun _ e => p e) s es ↔ ∀ e ∈ es, p e := by
  induction es generalizing s with
  | nil => simp [Along]
  | cons e es ih => rw [Along, ih, List.forall_mem_cons]

end ForexSuite.EventMachine
